import Mathlib.Data.Nat.Digits.Defs

/-!
# Decimal numerals as bytes

The text that C++ streams, `printf` with `%d` and Python print for a natural number.

* `text_digit`: it consists of digits;
* `value_text`: reading it gives the number back.
-/

namespace Fgds.Lib.Decimal

def text (n : Nat) : List UInt8 := (Nat.toDigits 10 n).map fun c => UInt8.ofNat c.toNat

/-- A decimal digit in ASCII. -/
def IsDigit (c : UInt8) : Prop := 0x30 ≤ c ∧ c ≤ 0x39

instance (c : UInt8) : Decidable (IsDigit c) := inferInstanceAs (Decidable (_ ∧ _))

/-- The number of a text of digits. -/
def value (ds : List UInt8) : Nat := ds.foldl (fun n c => 10 * n + (c.toNat - 0x30)) 0

theorem text_ne_nil (n : Nat) : text n ≠ [] := by
  unfold text
  rw [ne_eq, List.map_eq_nil_iff]
  exact Nat.toDigits_ne_nil

/-- The characters of a numeral fit in a byte. -/
theorem toNat_ofNat_of_isDigit {c : Char} (h : c.isDigit = true) :
    (UInt8.ofNat c.toNat).toNat = c.toNat ∧ 48 ≤ c.toNat ∧ c.toNat ≤ 57 := by
  have hlo : 48 ≤ c.toNat ∧ c.toNat ≤ 57 := by
    simpa [Char.isDigit, UInt32.le_iff_toNat_le] using h
  refine ⟨?_, hlo⟩
  rw [UInt8.toNat_ofNat']
  omega

theorem text_digit {n : Nat} {c : UInt8} (h : c ∈ text n) : IsDigit c := by
  obtain ⟨d, hd, rfl⟩ := List.mem_map.mp h
  have hdigit := Nat.isDigit_of_mem_toDigits (by decide) (by decide) hd
  obtain ⟨hnat, hlo, hhi⟩ := toNat_ofNat_of_isDigit hdigit
  rw [IsDigit, UInt8.le_iff_toNat_le, UInt8.le_iff_toNat_le, hnat]
  exact ⟨hlo, hhi⟩

theorem value_text (n : Nat) : value (text n) = n := by
  have hfold : ∀ (cs : List Char) (m : Nat), (∀ c ∈ cs, c.isDigit = true) →
      (cs.map fun c => UInt8.ofNat c.toNat).foldl (fun n c => 10 * n + (c.toNat - 0x30)) m =
        Nat.ofDigitChars 10 cs m := by
    intro cs
    induction cs with
    | nil => exact fun m _ => rfl
    | cons c cs ih =>
      intro m hcs
      have hc := (toNat_ofNat_of_isDigit (hcs c List.mem_cons_self)).1
      rw [List.map_cons, List.foldl_cons, ih _ fun c hc => hcs c (List.mem_cons_of_mem _ hc), hc,
        Nat.ofDigitChars_cons]
      rfl
  unfold value text
  rw [hfold _ _ fun c hc => Nat.isDigit_of_mem_toDigits (by decide) (by decide) hc]
  exact Nat.ofDigitChars_toDigits (by decide) (by decide)

end Fgds.Lib.Decimal
