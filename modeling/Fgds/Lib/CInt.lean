import Mathlib.Tactic

/-!
# Conversions between C integer types

Values of a C integer type are kept as `Nat` (unsigned) or `Int` (signed); the
functions here are the conversions that the usual arithmetic conversions, an
assignment or a cast insert. `u32` and `u64` reduce modulo `2 ^ w`; `s32` and
`s64` reinterpret in two's complement, as the compilers for Linux do.

* `intIndices_eq`: the values of an `int` counter that is compared with a 64-bit bound.
-/

namespace Fgds.Lib.CInt

/-- Conversion to `uint32_t`. -/
def u32 (x : Int) : Nat := (x % 2 ^ 32).toNat

/-- Conversion to `uint64_t`, `size_t`, `unsigned long`. -/
def u64 (x : Int) : Nat := (x % 2 ^ 64).toNat

/-- Conversion to `int`. -/
def s32 (x : Int) : Int := (x + 2 ^ 31) % 2 ^ 32 - 2 ^ 31

/-- Conversion to `int64_t`, `off_t`, `ssize_t`. -/
def s64 (x : Int) : Int := (x + 2 ^ 63) % 2 ^ 64 - 2 ^ 63

theorem u32_eq {x : Int} {n : Nat} (hx : x = n) (hn : n < 2 ^ 32) : u32 x = n := by
  subst hx; unfold u32; omega

theorem u64_eq {x : Int} {n : Nat} (hx : x = n) (hn : n < 2 ^ 64) : u64 x = n := by
  subst hx; unfold u64; omega

theorem s64_eq {x : Int} (hl : -2 ^ 63 ≤ x) (hu : x < 2 ^ 63) : s64 x = x := by
  unfold s64; omega

theorem s32_eq {x : Int} (hl : -2 ^ 31 ≤ x) (hu : x < 2 ^ 31) : s32 x = x := by
  unfold s32; omega

/-- A sum that leaves the signed range and is then read as unsigned is exact:
the two conversions cancel. -/
theorem u64_s64 (x : Int) : u64 (s64 x) = u64 x := by unfold u64 s64; omega

theorem s64_s64_add (x y : Int) : s64 (s64 x + y) = s64 (x + y) := by unfold s64; omega

theorem s64_add (x y : Int) : s64 (s64 x + s64 y) = s64 (x + y) := by unfold s64; omega

/-- Wrapping early and wrapping late give the same difference. -/
theorem u64_u64_sub (x y : Int) : u64 (u64 x - y) = u64 (x - y) := by unfold u64; omega

theorem u64_spec (x : Int) : ∃ k : Int, (u64 x : Int) = x + 2 ^ 64 * k :=
  ⟨-(x / 2 ^ 64), by unfold u64; omega⟩

theorem u64_congr {x y : Int} (k : Int) (h : x = y + 2 ^ 64 * k) : u64 x = u64 y := by
  subst h; unfold u64; omega

/-- The values, as 64-bit numbers, of an `int` counter in `for (...; i < n; i++)` with a 64-bit
bound: the comparison converts the counter, the increment wraps around. -/
def intLoop (n : Nat) : Nat → Int → List Nat
  | 0, _ => []
  | rounds + 1, i => if u64 i < n then u64 i :: intLoop n rounds (s32 (i + 1)) else []

/-- The counter starts at 0; it has taken all values it can take after `2 ^ 31` rounds. -/
def intIndices (n : Nat) : List Nat := intLoop n (2 ^ 31 + 1) 0

theorem intLoop_eq {n : Nat} (hn : n ≤ 2 ^ 63) (m rounds : Nat) {i : Nat}
    (hi : i + m = min n (2 ^ 31)) (hrounds : m < rounds) :
    intLoop n rounds (s32 i) = List.range' i m := by
  induction m generalizing rounds i with
  | zero =>
    obtain ⟨rounds, rfl⟩ := Nat.exists_eq_succ_of_ne_zero (Nat.ne_of_gt hrounds)
    have hstop : ¬ u64 (s32 i) < n := by
      unfold u64 s32
      omega
    rw [intLoop, if_neg hstop, List.range'_zero]
  | succ m ih =>
    obtain ⟨rounds, rfl⟩ := Nat.exists_eq_succ_of_ne_zero (Nat.ne_of_gt (Nat.zero_lt_of_lt hrounds))
    have hnow : s32 i = i := s32_eq (by omega) (by omega)
    have hindex : u64 (i : Int) = i := u64_eq rfl (by omega)
    have hnext := ih rounds (i := i + 1) (by omega) (by omega)
    rw [Nat.cast_add, Nat.cast_one] at hnext
    rw [intLoop, hnow, hindex, if_pos (by omega), hnext, List.range'_succ]

/-- All indices below the bound, as long as the counter does not overflow. -/
theorem intIndices_eq {n : Nat} (hn : n ≤ 2 ^ 63) : intIndices n = List.range (min n (2 ^ 31)) := by
  rw [List.range_eq_range', ← intLoop_eq hn _ (2 ^ 31 + 1) (Nat.zero_add _) (by omega)]
  rfl

/-- Division of a value that is not negative is the one of `Nat`. -/
theorem u32_tdiv {a d : Nat} (h : a / d < 2 ^ 32) : u32 ((a : Int).tdiv d) = a / d := by
  refine u32_eq ?_ h
  rw [Int.tdiv_eq_ediv_of_nonneg (Int.natCast_nonneg a), Int.natCast_ediv]

theorem u64_tmod {a d : Nat} (hd : 0 < d) (h : d ≤ 2 ^ 64) : u64 ((a : Int).tmod d) = a % d := by
  refine u64_eq ?_ (Nat.lt_of_lt_of_le (Nat.mod_lt a hd) h)
  rw [Int.tmod_eq_emod_of_nonneg (Int.natCast_nonneg a), Int.natCast_emod]

/-- C division truncates towards zero: the remainder has the sign of the dividend. -/
theorem tdiv_tmod {d : Int} (hd : 0 < d) (x : Int) :
    d * x.tdiv d + x.tmod d = x ∧ (0 ≤ x → 0 ≤ x.tmod d ∧ x.tmod d < d) ∧
      (x < 0 → -d < x.tmod d ∧ x.tmod d ≤ 0) := by
  refine ⟨Int.mul_tdiv_add_tmod x d,
    fun h => ⟨Int.tmod_nonneg d h, Int.tmod_lt_of_pos x hd⟩, fun h => ?_⟩
  have h1 := Int.lt_tmod_of_pos x hd
  have h2 := Int.tmod_nonneg (a := -x) d (by omega)
  rw [Int.neg_tmod] at h2
  omega

end Fgds.Lib.CInt
