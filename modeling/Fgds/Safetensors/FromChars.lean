import Fgds.Lib.CInt
import Fgds.Lib.Digits
import Fgds.Safetensors.Json

/-!
# `from_chars`

The loader reads every number of the header as a `double`. The digits of the text are kept as they
are; the number is divided by powers of two, or multiplied with them, digit by digit, until it lies
between one half and one, and the first 53 binary places are taken.

The places for digits are an array of 768; `truncated` says that one that was not zero is lost. The
tables say how many digits a multiplication with `2 ^ shift` adds: that depends on whether the
digits, read as a fraction, are below those of `5 ^ shift`.
-/

namespace Fgds.Safetensors.FromChars

open Fgds.Lib.CInt

def maxDigits : Nat := 768

def decimalPointRange : Int := 2047

/-- `struct decimal`: the number is `0.d₀d₁… * 10 ^ decimalPoint`. -/
structure Decimal where
  numDigits : Nat
  decimalPoint : Int
  negative : Bool
  truncated : Bool
  digits : Nat → Nat

structure AdjustedMantissa where
  mantissa : Nat
  power2 : Int
  deriving DecidableEq, Repr

def isInteger (c : UInt8) : Bool := 0x30 ≤ c && c ≤ 0x39

/-! ## `parse_decimal` -/

/-- One digit more, if there is a place for it. -/
def Decimal.append (h : Decimal) (digit : Nat) : Decimal :=
  { h with
    digits := if h.numDigits < maxDigits then Function.update h.digits h.numDigits digit
      else h.digits
    numDigits := h.numDigits + 1 }

/-- The loop over the digits of a text, which also returns what is behind them. -/
def readDigits : Text → Decimal → Text × Decimal
  | [], h => ([], h)
  | c :: p, h => if isInteger c then readDigits p (h.append (c.toNat - 0x30)) else (c :: p, h)

/-- The zeros at the end of a text; a point between them is passed over. -/
def trailingZeros (s : Text) : Nat :=
  (s.reverse.takeWhile fun c => c == 0x30 || c == 0x2e).count 0x30

/-- The digits of the exponent. -/
def readExponent : Text → Int → Int
  | [], expNumber => expNumber
  | c :: p, expNumber =>
    if isInteger c then
      readExponent p (if expNumber < 0x10000 then 10 * expNumber + (c.toNat - 0x30) else expNumber)
    else expNumber

/-- The part behind the point. -/
def readFraction (p : Text) (h : Decimal) : Text × Decimal :=
  match p with
  | 0x2e :: firstAfterPeriod =>
    let start := if h.numDigits = 0 then firstAfterPeriod.dropWhile (· == 0x30)
      else firstAfterPeriod
    let (p, h) := readDigits start h
    (p, { h with decimalPoint := -((firstAfterPeriod.length - p.length : Nat) : Int) })
  | _ => (p, h)

/-- The exponent with its sign, or zero. -/
def exponentOf : Text → Int
  | c :: p =>
    if c = 0x65 ∨ c = 0x45 then
      match p with
      | 0x2d :: p => -readExponent p 0
      | 0x2b :: p => readExponent p 0
      | p => readExponent p 0
    else 0
  | [] => 0

/-- The point is counted from the first digit, and zeros at the end are dropped. -/
def Decimal.dropZeros (h : Decimal) (trailingZeros : Nat) : Decimal :=
  if h.numDigits > 0 then
    { h with
      decimalPoint := h.decimalPoint + h.numDigits
      numDigits := h.numDigits - trailingZeros }
  else h

/-- Digits for which there was no place. -/
def Decimal.cap (h : Decimal) : Decimal :=
  if h.numDigits > maxDigits then { h with numDigits := maxDigits, truncated := true } else h

/-- `parse_decimal`. The text ends where the number does. -/
def parseDecimal (first : Text) : Decimal :=
  let negative := first.head? == some 0x2d
  let first := if negative || first.head? == some 0x2b then first.tail else first
  let (p, h) := readDigits (first.dropWhile (· == 0x30)) ⟨0, 0, negative, false, fun _ => 0⟩
  let (p, h) := readFraction p h
  let h := (h.dropZeros (trailingZeros (first.take (first.length - p.length)))).cap
  { h with decimalPoint := h.decimalPoint + exponentOf p }

/-! ## Multiplying and dividing by powers of two -/

/-- The digits without the zeros at the end. -/
def trimmed (digits : Nat → Nat) : Nat → Nat
  | 0 => 0
  | k + 1 => if digits k = 0 then trimmed digits k else k + 1

/-- `trim`. -/
def Decimal.trim (h : Decimal) : Decimal := { h with numDigits := trimmed h.digits h.numDigits }

/-- `number_of_digits_decimal_left_shift_table`. -/
def numberOfDigitsTable : List Nat := [
  0x0000, 0x0800, 0x0801, 0x0803, 0x1006, 0x1009, 0x100D, 0x1812, 0x1817, 0x181D, 0x2024, 0x202B,
  0x2033, 0x203C, 0x2846, 0x2850, 0x285B, 0x3067, 0x3073, 0x3080, 0x388E, 0x389C, 0x38AB, 0x38BB,
  0x40CC, 0x40DD, 0x40EF, 0x4902, 0x4915, 0x4929, 0x513E, 0x5153, 0x5169, 0x5180, 0x5998, 0x59B0,
  0x59C9, 0x61E3, 0x61FD, 0x6218, 0x6A34, 0x6A50, 0x6A6D, 0x6A8B, 0x72AA, 0x72C9, 0x72E9, 0x7B0A,
  0x7B2B, 0x7B4D, 0x8370, 0x8393, 0x83B7, 0x83DC, 0x8C02, 0x8C28, 0x8C4F, 0x9477, 0x949F, 0x94C8,
  0x9CF2, 0x051C, 0x051C, 0x051C, 0x051C]

/-- `number_of_digits_decimal_left_shift_table_powers_of_5`: the digits of `5`, `25`, `125`, …. -/
def powersOf5 : List Nat := [
  5, 2, 5, 1, 2, 5, 6, 2, 5, 3, 1, 2, 5, 1, 5, 6, 2, 5, 7, 8, 1, 2, 5, 3, 9, 0, 6, 2, 5, 1, 9, 5,
  3, 1, 2, 5, 9, 7, 6, 5, 6, 2, 5, 4, 8, 8, 2, 8, 1, 2, 5, 2, 4, 4, 1, 4, 0, 6, 2, 5, 1, 2, 2, 0,
  7, 0, 3, 1, 2, 5, 6, 1, 0, 3, 5, 1, 5, 6, 2, 5, 3, 0, 5, 1, 7, 5, 7, 8, 1, 2, 5, 1, 5, 2, 5, 8,
  7, 8, 9, 0, 6, 2, 5, 7, 6, 2, 9, 3, 9, 4, 5, 3, 1, 2, 5, 3, 8, 1, 4, 6, 9, 7, 2, 6, 5, 6, 2, 5,
  1, 9, 0, 7, 3, 4, 8, 6, 3, 2, 8, 1, 2, 5, 9, 5, 3, 6, 7, 4, 3, 1, 6, 4, 0, 6, 2, 5, 4, 7, 6, 8,
  3, 7, 1, 5, 8, 2, 0, 3, 1, 2, 5, 2, 3, 8, 4, 1, 8, 5, 7, 9, 1, 0, 1, 5, 6, 2, 5, 1, 1, 9, 2, 0,
  9, 2, 8, 9, 5, 5, 0, 7, 8, 1, 2, 5, 5, 9, 6, 0, 4, 6, 4, 4, 7, 7, 5, 3, 9, 0, 6, 2, 5, 2, 9, 8,
  0, 2, 3, 2, 2, 3, 8, 7, 6, 9, 5, 3, 1, 2, 5, 1, 4, 9, 0, 1, 1, 6, 1, 1, 9, 3, 8, 4, 7, 6, 5, 6,
  2, 5, 7, 4, 5, 0, 5, 8, 0, 5, 9, 6, 9, 2, 3, 8, 2, 8, 1, 2, 5, 3, 7, 2, 5, 2, 9, 0, 2, 9, 8, 4,
  6, 1, 9, 1, 4, 0, 6, 2, 5, 1, 8, 6, 2, 6, 4, 5, 1, 4, 9, 2, 3, 0, 9, 5, 7, 0, 3, 1, 2, 5, 9, 3,
  1, 3, 2, 2, 5, 7, 4, 6, 1, 5, 4, 7, 8, 5, 1, 5, 6, 2, 5, 4, 6, 5, 6, 6, 1, 2, 8, 7, 3, 0, 7, 7,
  3, 9, 2, 5, 7, 8, 1, 2, 5, 2, 3, 2, 8, 3, 0, 6, 4, 3, 6, 5, 3, 8, 6, 9, 6, 2, 8, 9, 0, 6, 2, 5,
  1, 1, 6, 4, 1, 5, 3, 2, 1, 8, 2, 6, 9, 3, 4, 8, 1, 4, 4, 5, 3, 1, 2, 5, 5, 8, 2, 0, 7, 6, 6, 0,
  9, 1, 3, 4, 6, 7, 4, 0, 7, 2, 2, 6, 5, 6, 2, 5, 2, 9, 1, 0, 3, 8, 3, 0, 4, 5, 6, 7, 3, 3, 7, 0,
  3, 6, 1, 3, 2, 8, 1, 2, 5, 1, 4, 5, 5, 1, 9, 1, 5, 2, 2, 8, 3, 6, 6, 8, 5, 1, 8, 0, 6, 6, 4, 0,
  6, 2, 5, 7, 2, 7, 5, 9, 5, 7, 6, 1, 4, 1, 8, 3, 4, 2, 5, 9, 0, 3, 3, 2, 0, 3, 1, 2, 5, 3, 6, 3,
  7, 9, 7, 8, 8, 0, 7, 0, 9, 1, 7, 1, 2, 9, 5, 1, 6, 6, 0, 1, 5, 6, 2, 5, 1, 8, 1, 8, 9, 8, 9, 4,
  0, 3, 5, 4, 5, 8, 5, 6, 4, 7, 5, 8, 3, 0, 0, 7, 8, 1, 2, 5, 9, 0, 9, 4, 9, 4, 7, 0, 1, 7, 7, 2,
  9, 2, 8, 2, 3, 7, 9, 1, 5, 0, 3, 9, 0, 6, 2, 5, 4, 5, 4, 7, 4, 7, 3, 5, 0, 8, 8, 6, 4, 6, 4, 1,
  1, 8, 9, 5, 7, 5, 1, 9, 5, 3, 1, 2, 5, 2, 2, 7, 3, 7, 3, 6, 7, 5, 4, 4, 3, 2, 3, 2, 0, 5, 9, 4,
  7, 8, 7, 5, 9, 7, 6, 5, 6, 2, 5, 1, 1, 3, 6, 8, 6, 8, 3, 7, 7, 2, 1, 6, 1, 6, 0, 2, 9, 7, 3, 9,
  3, 7, 9, 8, 8, 2, 8, 1, 2, 5, 5, 6, 8, 4, 3, 4, 1, 8, 8, 6, 0, 8, 0, 8, 0, 1, 4, 8, 6, 9, 6, 8,
  9, 9, 4, 1, 4, 0, 6, 2, 5, 2, 8, 4, 2, 1, 7, 0, 9, 4, 3, 0, 4, 0, 4, 0, 0, 7, 4, 3, 4, 8, 4, 4,
  9, 7, 0, 7, 0, 3, 1, 2, 5, 1, 4, 2, 1, 0, 8, 5, 4, 7, 1, 5, 2, 0, 2, 0, 0, 3, 7, 1, 7, 4, 2, 2,
  4, 8, 5, 3, 5, 1, 5, 6, 2, 5, 7, 1, 0, 5, 4, 2, 7, 3, 5, 7, 6, 0, 1, 0, 0, 1, 8, 5, 8, 7, 1, 1,
  2, 4, 2, 6, 7, 5, 7, 8, 1, 2, 5, 3, 5, 5, 2, 7, 1, 3, 6, 7, 8, 8, 0, 0, 5, 0, 0, 9, 2, 9, 3, 5,
  5, 6, 2, 1, 3, 3, 7, 8, 9, 0, 6, 2, 5, 1, 7, 7, 6, 3, 5, 6, 8, 3, 9, 4, 0, 0, 2, 5, 0, 4, 6, 4,
  6, 7, 7, 8, 1, 0, 6, 6, 8, 9, 4, 5, 3, 1, 2, 5, 8, 8, 8, 1, 7, 8, 4, 1, 9, 7, 0, 0, 1, 2, 5, 2,
  3, 2, 3, 3, 8, 9, 0, 5, 3, 3, 4, 4, 7, 2, 6, 5, 6, 2, 5, 4, 4, 4, 0, 8, 9, 2, 0, 9, 8, 5, 0, 0,
  6, 2, 6, 1, 6, 1, 6, 9, 4, 5, 2, 6, 6, 7, 2, 3, 6, 3, 2, 8, 1, 2, 5, 2, 2, 2, 0, 4, 4, 6, 0, 4,
  9, 2, 5, 0, 3, 1, 3, 0, 8, 0, 8, 4, 7, 2, 6, 3, 3, 3, 6, 1, 8, 1, 6, 4, 0, 6, 2, 5, 1, 1, 1, 0,
  2, 2, 3, 0, 2, 4, 6, 2, 5, 1, 5, 6, 5, 4, 0, 4, 2, 3, 6, 3, 1, 6, 6, 8, 0, 9, 0, 8, 2, 0, 3, 1,
  2, 5, 5, 5, 5, 1, 1, 1, 5, 1, 2, 3, 1, 2, 5, 7, 8, 2, 7, 0, 2, 1, 1, 8, 1, 5, 8, 3, 4, 0, 4, 5,
  4, 1, 0, 1, 5, 6, 2, 5, 2, 7, 7, 5, 5, 5, 7, 5, 6, 1, 5, 6, 2, 8, 9, 1, 3, 5, 1, 0, 5, 9, 0, 7,
  9, 1, 7, 0, 2, 2, 7, 0, 5, 0, 7, 8, 1, 2, 5, 1, 3, 8, 7, 7, 7, 8, 7, 8, 0, 7, 8, 1, 4, 4, 5, 6,
  7, 5, 5, 2, 9, 5, 3, 9, 5, 8, 5, 1, 1, 3, 5, 2, 5, 3, 9, 0, 6, 2, 5, 6, 9, 3, 8, 8, 9, 3, 9, 0,
  3, 9, 0, 7, 2, 2, 8, 3, 7, 7, 6, 4, 7, 6, 9, 7, 9, 2, 5, 5, 6, 7, 6, 2, 6, 9, 5, 3, 1, 2, 5, 3,
  4, 6, 9, 4, 4, 6, 9, 5, 1, 9, 5, 3, 6, 1, 4, 1, 8, 8, 8, 2, 3, 8, 4, 8, 9, 6, 2, 7, 8, 3, 8, 1,
  3, 4, 7, 6, 5, 6, 2, 5, 1, 7, 3, 4, 7, 2, 3, 4, 7, 5, 9, 7, 6, 8, 0, 7, 0, 9, 4, 4, 1, 1, 9, 2,
  4, 4, 8, 1, 3, 9, 1, 9, 0, 6, 7, 3, 8, 2, 8, 1, 2, 5, 8, 6, 7, 3, 6, 1, 7, 3, 7, 9, 8, 8, 4, 0,
  3, 5, 4, 7, 2, 0, 5, 9, 6, 2, 2, 4, 0, 6, 9, 5, 9, 5, 3, 3, 6, 9, 1, 4, 0, 6, 2, 5]

/-- The loop that compares the digits with those of a power of five from `i` on. -/
def countLoop (h : Decimal) (pow5 : Nat → Nat) (numNewDigits : Nat) : Nat → Nat → Nat
  | 0, _ => numNewDigits
  | left + 1, i =>
    if h.numDigits ≤ i then numNewDigits - 1
    else if h.digits i = pow5 i then countLoop h pow5 numNewDigits left (i + 1)
    else if h.digits i < pow5 i then numNewDigits - 1
    else numNewDigits

/-- `number_of_digits_decimal_left_shift`. -/
def numberOfDigitsDecimalLeftShift (h : Decimal) (shift : Nat) : Nat :=
  let shift := shift &&& 63
  let xA := numberOfDigitsTable.getD shift 0
  let xB := numberOfDigitsTable.getD (shift + 1) 0
  let numNewDigits := xA >>> 11
  let pow5A := 0x7FF &&& xA
  let pow5B := 0x7FF &&& xB
  countLoop h (fun i => powersOf5.getD (pow5A + i) 0) numNewDigits (pow5B - pow5A) 0

/-- A digit is stored, or it is lost. -/
def Decimal.put (h : Decimal) (writeIndex digit : Nat) : Decimal :=
  if writeIndex < maxDigits then { h with digits := Function.update h.digits writeIndex digit }
  else if digit > 0 then { h with truncated := true }
  else h

/-- The first loop of `decimal_left_shift`, with `readIndex - 1` in `read_index`. -/
def leftLoop (shift : Nat) : Nat → Decimal → Nat → Nat → Decimal × Nat × Nat
  | 0, h, writeIndex, n => (h, writeIndex, n)
  | readIndex + 1, h, writeIndex, n =>
    let n := u64 (n + u64 (h.digits readIndex * 2 ^ shift : Nat))
    let quotient := n / 10
    let remainder := n - 10 * quotient
    leftLoop shift readIndex (h.put writeIndex remainder) (u32 (writeIndex - 1)) quotient

/-- The second loop; a `uint64_t` has no more than 20 digits. -/
def carryLoop : Nat → Decimal → Nat → Nat → Decimal
  | 0, h, _, _ => h
  | rounds + 1, h, writeIndex, n =>
    if n > 0 then
      let quotient := n / 10
      let remainder := n - 10 * quotient
      carryLoop rounds (h.put writeIndex remainder) (u32 (writeIndex - 1)) quotient
    else h

/-- `decimal_left_shift`. -/
def decimalLeftShift (h : Decimal) (shift : Nat) : Decimal :=
  if h.numDigits = 0 then h
  else
    let numNewDigits := numberOfDigitsDecimalLeftShift h shift
    let (h', writeIndex, n) :=
      leftLoop shift h.numDigits h (h.numDigits - 1 + numNewDigits) 0
    let h' := carryLoop 20 h' writeIndex n
    Decimal.trim { h' with
      numDigits := min (h.numDigits + numNewDigits) maxDigits
      decimalPoint := h.decimalPoint + numNewDigits }

/-- Zeros are read behind the last digit until there is something to write. -/
def padLoop (shift : Nat) : Nat → Nat → Nat → Nat × Nat
  | 0, readIndex, n => (readIndex, n)
  | rounds + 1, readIndex, n =>
    if n >>> shift = 0 then padLoop shift rounds (readIndex + 1) (u64 (10 * n : Nat))
    else (readIndex, n)

/-- The first loop of `decimal_right_shift`, with `left` digits still to read: `read_index` and `n`
behind it, or nothing if all digits are zeros. -/
def rightLoop (digits : Nat → Nat) (shift : Nat) : Nat → Nat → Nat → Option (Nat × Nat)
  | 0, readIndex, n =>
    if n >>> shift = 0 then
      if n = 0 then none else some (padLoop shift shift readIndex n)
    else some (readIndex, n)
  | left + 1, readIndex, n =>
    if n >>> shift = 0 then
      rightLoop digits shift left (readIndex + 1) (u64 (10 * n + digits readIndex : Nat))
    else some (readIndex, n)

/-- The loop that writes digits as long as there are digits to read. -/
def divideLoop (shift : Nat) : Nat → Nat → Nat → Nat → (Nat → Nat) → Nat × Nat × (Nat → Nat)
  | 0, _, writeIndex, n, digits => (writeIndex, n, digits)
  | left + 1, readIndex, writeIndex, n, digits =>
    let newDigit := n >>> shift % 256
    let n := u64 (10 * (n % 2 ^ shift) + digits readIndex : Nat)
    divideLoop shift left (readIndex + 1) (writeIndex + 1) n
      (Function.update digits writeIndex newDigit)

/-- The loop that writes the rest. -/
def restLoop (shift : Nat) : Nat → Decimal → Nat → Nat → Decimal × Nat
  | 0, h, writeIndex, _ => (h, writeIndex)
  | rounds + 1, h, writeIndex, n =>
    if n > 0 then
      let newDigit := n >>> shift % 256
      let n := u64 (10 * (n % 2 ^ shift) : Nat)
      if writeIndex < maxDigits then
        restLoop shift rounds (h.put writeIndex newDigit) (writeIndex + 1) n
      else restLoop shift rounds (h.put writeIndex newDigit) writeIndex n
    else (h, writeIndex)

/-- `decimal_right_shift`. The rest is zero after at most `shift + 1` rounds: each makes it
divisible by two once more. -/
def decimalRightShift (h : Decimal) (shift : Nat) : Decimal :=
  match rightLoop h.digits shift h.numDigits 0 0 with
  | none => h
  | some (readIndex, n) =>
    let decimalPoint := h.decimalPoint - (readIndex - 1)
    if decimalPoint < -decimalPointRange then
      { h with numDigits := 0, decimalPoint := 0, negative := false, truncated := false }
    else
      let (writeIndex, n, digits) :=
        divideLoop shift (h.numDigits - readIndex) readIndex 0 n h.digits
      let (h', writeIndex) := restLoop shift (shift + 1) { h with digits } writeIndex n
      Decimal.trim { h' with numDigits := writeIndex, decimalPoint }

/-! ## `compute_float` -/

/-- The sum in `round` of the digits before the point. -/
def roundLoop (h : Decimal) : Nat → Nat
  | 0 => 0
  | i + 1 => u64 (10 * roundLoop h i + if i < h.numDigits then h.digits i else 0 : Nat)

/-- The digit behind the point decides, and if it is a five and the last one, that before it. -/
def roundUp (h : Decimal) (dp : Nat) : Bool :=
  if dp < h.numDigits then
    if h.digits dp = 5 ∧ dp + 1 = h.numDigits then
      h.truncated || (dp > 0 && h.digits (dp - 1) % 2 == 1)
    else h.digits dp ≥ 5
  else false

/-- `round`. -/
def round (h : Decimal) : Nat :=
  if h.numDigits = 0 ∨ h.decimalPoint < 0 then 0
  else if h.decimalPoint > 18 then 2 ^ 64 - 1
  else
    let dp := h.decimalPoint.toNat
    let n := roundLoop h dp
    if roundUp h dp then u64 (n + 1 : Nat) else n

def mantissaExplicitBits : Nat := 52

def minimumExponent : Int := -1023

def infinitePower : Int := 0x7FF

def maxShift : Nat := 60

def powers : List Nat := [0, 3, 6, 9, 13, 16, 19, 23, 26, 29, 33, 36, 39, 43, 46, 49, 53, 56, 59]

/-- The shift for a decimal point that is `n` away. -/
def shiftFor (n : Nat) : Nat := if n < 19 then powers.getD n 0 else maxShift

/-- The loop that divides until the number is below one. An early return gives its answer. -/
def downLoop : Nat → Decimal → Int → Option (Except AdjustedMantissa (Decimal × Int))
  | 0, _, _ => none
  | rounds + 1, d, exp2 =>
    if d.decimalPoint > 0 then
      let shift := shiftFor d.decimalPoint.toNat
      let d := decimalRightShift d shift
      if d.decimalPoint < -decimalPointRange then some (.error ⟨0, 0⟩)
      else downLoop rounds d (exp2 + shift)
    else some (.ok (d, exp2))

/-- The loop that multiplies until the number is at least one half. -/
def upLoop : Nat → Decimal → Int → Option (Except AdjustedMantissa (Decimal × Int))
  | 0, _, _ => none
  | rounds + 1, d, exp2 =>
    if d.decimalPoint ≤ 0 then
      if d.decimalPoint = 0 ∧ d.digits 0 ≥ 5 then some (.ok (d, exp2))
      else
        let shift :=
          if d.decimalPoint = 0 then if d.digits 0 < 2 then 2 else 1
          else shiftFor (-d.decimalPoint).toNat
        let d := decimalLeftShift d shift
        if d.decimalPoint > decimalPointRange then some (.error ⟨0, 0xFF⟩)
        else upLoop rounds d (exp2 - shift)
    else some (.ok (d, exp2))

/-- The loop for numbers below the normal ones. -/
def subnormalLoop : Nat → Decimal → Int → Option (Decimal × Int)
  | 0, _, _ => none
  | rounds + 1, d, exp2 =>
    if minimumExponent + 1 > exp2 then
      let n := min (minimumExponent + 1 - exp2).toNat maxShift
      subnormalLoop rounds (decimalRightShift d n) (exp2 + n)
    else some (d, exp2)

/-- The answer without the highest bit of the mantissa. -/
def pack (mantissa : Nat) (exp2 : Int) : AdjustedMantissa :=
  ⟨mantissa % 2 ^ mantissaExplicitBits,
    if mantissa < 2 ^ mantissaExplicitBits then exp2 - minimumExponent - 1
    else exp2 - minimumExponent⟩

/-- The end of `compute_float`: the number lies between one half and one. -/
def finish (d : Decimal) (exp2 : Int) : AdjustedMantissa :=
  if exp2 - minimumExponent ≥ infinitePower then ⟨0, infinitePower⟩
  else
    let d := decimalLeftShift d (mantissaExplicitBits + 1)
    if round d ≥ 2 ^ (mantissaExplicitBits + 1) then
      -- an overflow, in which case we need to shift back
      if exp2 + 1 - minimumExponent ≥ infinitePower then ⟨0, infinitePower⟩
      else pack (round (decimalRightShift d 1)) (exp2 + 1)
    else pack (round d) exp2

/-- `compute_float`, with a bound on the rounds of its loops. -/
def computeFloat (rounds : Nat) (d : Decimal) : Option AdjustedMantissa :=
  if d.numDigits = 0 then some ⟨0, 0⟩
  else if d.decimalPoint < -324 then some ⟨0, 0⟩
  else if d.decimalPoint ≥ 310 then some ⟨0, infinitePower⟩
  else do
    match ← downLoop rounds d 0 with
    | .error answer => return answer
    | .ok (d, exp2) =>
      match ← upLoop rounds d exp2 with
      | .error answer => return answer
      | .ok (d, exp2) =>
        let (d, exp2) ← subnormalLoop rounds d (exp2 - 1)
        return finish d exp2

/-- `from_chars`: the bits of the `double`. -/
def fromChars (rounds : Nat) (first : Text) : Option Nat := do
  let negative := first.head? == some 0x2d
  let first := if negative then first.tail else first
  let am ← computeFloat rounds (parseDecimal first)
  let word := am.mantissa ||| u64 (u64 am.power2 * 2 ^ mantissaExplicitBits : Nat)
  return if negative then word ||| 2 ^ 63 else word

end Fgds.Safetensors.FromChars
