import Mathlib.Data.List.Basic

/-!
# Percent encoding

Every byte that is not a letter, a digit or one of `_.-~` is written as `%` and two
hexadecimal digits. No character is kept because it is considered safe for a path.

* `unquote_quote`: decoding gives the bytes back;
* `slash_not_mem_quote`: the encoded text is one component of a path.
-/

namespace Fgds.Lib.Percent

/-- The bytes that are written as they are. -/
def alwaysSafe (b : UInt8) : Bool :=
  (Char.ofNat b.toNat).isAlphanum && b.toNat < 128 || b == 95 || b == 46 || b == 45 || b == 126

def hexDigit (n : Nat) : Char := if n < 10 then Char.ofNat (48 + n) else Char.ofNat (55 + n)

def quoteByte (b : UInt8) : List Char :=
  if alwaysSafe b then [Char.ofNat b.toNat]
  else ['%', hexDigit (b.toNat / 16), hexDigit (b.toNat % 16)]

def quote (bs : List UInt8) : List Char := bs.flatMap quoteByte

/-- The value of a hexadecimal digit, in either case. -/
def hexValue (c : Char) : Option Nat :=
  if c.isDigit then some (c.toNat - 48)
  else if 'A' ≤ c ∧ c ≤ 'F' then some (c.toNat - 55)
  else if 'a' ≤ c ∧ c ≤ 'f' then some (c.toNat - 87)
  else none

/-- The bytes of a character that is not part of an escape. -/
def charBytes (c : Char) : List UInt8 :=
  if c.toNat < 128 then [UInt8.ofNat c.toNat] else String.utf8EncodeChar c

/-- A `%` that is not followed by two hexadecimal digits stands for itself. -/
def unquote : List Char → List UInt8
  | [] => []
  | '%' :: a :: b :: rest =>
    match hexValue a, hexValue b with
    | some x, some y => UInt8.ofNat (16 * x + y) :: unquote rest
    | _, _ => 37 :: unquote (a :: b :: rest)
  | c :: rest => charBytes c ++ unquote rest

theorem hexValue_hexDigit {n : Nat} (h : n < 16) : hexValue (hexDigit n) = some n := by
  have hall : ∀ n < 16, hexValue (hexDigit n) = some n := by decide +kernel
  exact hall n h

theorem hexDigit_ne_slash {n : Nat} (h : n < 16) : hexDigit n ≠ '/' := by
  have hall : ∀ n < 16, hexDigit n ≠ '/' := by decide +kernel
  exact hall n h

/-- A byte that is written as it is stands for itself, and is neither `%` nor `/`. -/
theorem charBytes_safe {b : UInt8} (h : alwaysSafe b = true) :
    charBytes (Char.ofNat b.toNat) = [b] ∧ Char.ofNat b.toNat ≠ '%' ∧
      Char.ofNat b.toNat ≠ '/' := by
  have hall : ∀ n < 256, alwaysSafe (UInt8.ofNat n) = true →
      charBytes (Char.ofNat n) = [UInt8.ofNat n] ∧ Char.ofNat n ≠ '%' ∧ Char.ofNat n ≠ '/' := by
    decide +kernel
  have hb := hall b.toNat b.toNat_lt
  rw [UInt8.ofNat_toNat] at hb
  exact hb h

theorem unquote_cons {c : Char} (hc : c ≠ '%') (rest : List Char) :
    unquote (c :: rest) = charBytes c ++ unquote rest := by
  rw [unquote]
  rintro a b rest' rfl
  exact absurd rfl hc

theorem unquote_quoteByte (b : UInt8) (rest : List Char) :
    unquote (quoteByte b ++ rest) = b :: unquote rest := by
  unfold quoteByte
  by_cases hb : alwaysSafe b = true
  · obtain ⟨hbytes, hpct, _⟩ := charBytes_safe hb
    rw [if_pos hb, List.singleton_append, unquote_cons hpct, hbytes]
    rfl
  · have hlt := b.toNat_lt
    rw [if_neg hb]
    simp only [List.cons_append, List.nil_append, unquote]
    rw [hexValue_hexDigit (by omega), hexValue_hexDigit (by omega)]
    simp only [Nat.div_add_mod, UInt8.ofNat_toNat]

theorem unquote_quote (bs : List UInt8) : unquote (quote bs) = bs := by
  induction bs with
  | nil => rfl
  | cons b bs ih =>
    rw [quote, List.flatMap_cons, unquote_quoteByte, ← quote, ih]

theorem slash_not_mem_quote (bs : List UInt8) : '/' ∉ quote bs := by
  intro h
  obtain ⟨b, _, hb⟩ := List.mem_flatMap.mp h
  have hlt := b.toNat_lt
  unfold quoteByte at hb
  split at hb
  · rename_i hsafe
    exact (charBytes_safe hsafe).2.2 (List.mem_singleton.mp hb).symm
  · simp only [List.mem_cons, List.not_mem_nil, or_false] at hb
    rcases hb with hb | hb | hb
    · cases hb
    · exact hexDigit_ne_slash (by omega) hb.symm
    · exact hexDigit_ne_slash (by omega) hb.symm

end Fgds.Lib.Percent
