import Mathlib

/-!
# The JSON parser of the safetensors loader

`minijson` in `safetensors.hh` walks over a string that ends in a NUL. A position is the rest of
the string from there on, terminator included, so that `*i` is the first byte of the list and a
read behind the terminator is `Error.overrun`. Numbers become a C `double` by `from_chars`, which
is a parameter here: it gets the characters of the number.

* `parse_ends`: for every text the parser ends, and it reads nothing behind the terminator.
-/

namespace Fgds.Safetensors

/-- The bytes of a string. -/
abbrev Text := List UInt8

/-- The tables of keys are searched in one way in all modules. -/
scoped instance decidableMemText (t : Text) (ts : List Text) : Decidable (t ∈ ts) := inferInstance

/-- A text constant of the source. -/
def ascii (s : String) : Text := s.toList.map fun c => UInt8.ofNat c.toNat

namespace Json

/-- `minijson::error`, and two outcomes that the source does not have. -/
inductive Error where
  | undefined
  | invalidToken
  | corruptedJson
  | duplicatedKey
  | overrun -- a read behind the terminator
  | unfinished -- the bound of the recursion is reached
  deriving DecidableEq, Repr

/-- `minijson::value`; an object keeps the order of its keys. -/
inductive Value (N : Type) where
  | unknown
  | null
  | boolean (b : Bool)
  | number (d : N)
  | string (s : Text)
  | array (a : List (Value N))
  | object (o : List (Text × Value N))

/-! ## Strings -/

/-- The value of a hexadecimal digit. -/
def hexDigit (c : UInt8) : Option Nat :=
  if 0x30 ≤ c ∧ c ≤ 0x39 then some (c.toNat - 0x30)
  else if 0x41 ≤ c ∧ c ≤ 0x46 then some (c.toNat - 0x37)
  else if 0x61 ≤ c ∧ c ≤ 0x66 then some (c.toNat - 0x57)
  else none

/-- `get_codepoint`, behind the `u`. At the end of the text `get` gives NUL, which is no digit. -/
def getCodepoint : Text → Option (Nat × Text)
  | a :: b :: c :: d :: i =>
    match hexDigit a, hexDigit b, hexDigit c, hexDigit d with
    | some a, some b, some c, some d => some (a * 0x1000 + b * 0x100 + c * 0x10 + d, i)
    | _, _, _, _ => none
  | _ => none

/-- The code point of a `\u` escape, with the second half of a surrogate pair. -/
def unicodeEscape (i : Text) : Option (Nat × Text) :=
  match getCodepoint i with
  | none => none
  | some (codepoint1, i) =>
    if 0xD800 ≤ codepoint1 ∧ codepoint1 ≤ 0xDBFF then
      match i with
      | 0x5c :: 0x75 :: i =>
        match getCodepoint i with
        | none => none
        | some (codepoint2, i) =>
          if 0xDC00 ≤ codepoint2 ∧ codepoint2 ≤ 0xDFFF then
            some (codepoint1 * 0x400 + codepoint2 - 0x35FDC00, i)
          else none
      | _ => none
    else if 0xDC00 ≤ codepoint1 ∧ codepoint1 ≤ 0xDFFF then none
    else some (codepoint1, i)

/-- The bytes of a code point. -/
def encode (codepoint : Nat) : Text :=
  if codepoint < 0x80 then [.ofNat codepoint]
  else if codepoint ≤ 0x7FF then
    [.ofNat (0xC0 ||| codepoint >>> 6), .ofNat (0x80 ||| codepoint &&& 0x3F)]
  else if codepoint ≤ 0xFFFF then
    [.ofNat (0xE0 ||| codepoint >>> 12), .ofNat (0x80 ||| codepoint >>> 6 &&& 0x3F),
      .ofNat (0x80 ||| codepoint &&& 0x3F)]
  else
    [.ofNat (0xF0 ||| codepoint >>> 18), .ofNat (0x80 ||| codepoint >>> 12 &&& 0x3F),
      .ofNat (0x80 ||| codepoint >>> 6 &&& 0x3F), .ofNat (0x80 ||| codepoint &&& 0x3F)]

/-- What stands behind a backslash. -/
def escape : Text → Option (Text × Text)
  | [] => none
  | c :: i =>
    if c = 0x22 ∨ c = 0x5c ∨ c = 0x2f then some ([c], i)
    else if c = 0x62 then some ([0x08], i)
    else if c = 0x66 then some ([0x0c], i)
    else if c = 0x6e then some ([0x0a], i)
    else if c = 0x72 then some ([0x0d], i)
    else if c = 0x74 then some ([0x09], i)
    else if c = 0x75 then (unicodeEscape i).map fun r => (encode r.1, r.2)
    else none

/-- The ranges of the bytes that follow the first byte of a UTF-8 sequence. -/
def utf8Ranges (c : UInt8) : Option (List (UInt8 × UInt8)) :=
  if 0xC2 ≤ c ∧ c ≤ 0xDF then some [(0x80, 0xBF)]
  else if c = 0xE0 then some [(0xA0, 0xBF), (0x80, 0xBF)]
  else if c = 0xED then some [(0x80, 0x9F), (0x80, 0xBF)]
  else if 0xE1 ≤ c ∧ c ≤ 0xEF then some [(0x80, 0xBF), (0x80, 0xBF)]
  else if c = 0xF0 then some [(0x90, 0xBF), (0x80, 0xBF), (0x80, 0xBF)]
  else if 0xF1 ≤ c ∧ c ≤ 0xF3 then some [(0x80, 0xBF), (0x80, 0xBF), (0x80, 0xBF)]
  else if c = 0xF4 then some [(0x80, 0x8F), (0x80, 0xBF), (0x80, 0xBF)]
  else none

/-- `next_byte_in_range`, without the first byte. -/
def nextBytesInRange : List (UInt8 × UInt8) → Text → Option (Text × Text)
  | [], i => some ([], i)
  | _ :: _, [] => none
  | (lo, hi) :: ranges, c :: i =>
    if lo ≤ c ∧ c ≤ hi then (nextBytesInRange ranges i).map fun r => (c :: r.1, r.2) else none

/-- The loop of `scan_string`, from behind the opening quote; a round takes at least one byte. -/
def scanLoop : Nat → Text → Option Text
  | 0, _ => none
  | _ + 1, [] => none -- `get` gives NUL
  | rounds + 1, c :: i =>
    if c = 0x22 then some []
    else if c = 0x5c then
      match escape i with
      | none => none
      | some (bytes, i) => (scanLoop rounds i).map (bytes ++ ·)
    else if c < 0x20 then none
    else if c < 0x80 then (scanLoop rounds i).map (c :: ·)
    else
      match utf8Ranges c with
      | none => none
      | some ranges =>
        match nextBytesInRange ranges i with
        | none => none
        | some (bytes, i) => (scanLoop rounds i).map (c :: bytes ++ ·)

/-- `scan_string`; `none` is any of its error messages, which `parse_string` does not look at. -/
def scanString (buf : Text) : Option Text := scanLoop buf.length buf

/-- The characters that may follow a value, `":,\x7d]\r\n "`. -/
def delimiters : Text := [0x3a, 0x2c, 0x7d, 0x5d, 0x0d, 0x0a, 0x20]

/-- The test behind a value: the end of the text or a delimiter. -/
def checkDelimiter (e : Error) : Text → Except Error Unit
  | [] => .error .overrun
  | c :: _ => if c = 0 ∨ c ∈ delimiters then .ok () else .error e

/-- The loop of `parse_string`: the text up to the closing quote, and the position behind it. -/
def untilQuote : Text → Except Error (Text × Text)
  | [] => .error .overrun
  | c :: i =>
    if c = 0 then .error .invalidToken
    else if c = 0x22 then .ok ([], i)
    else if c = 0x5c then
      match i with
      | [] => .error .overrun
      | d :: i =>
        -- the terminator behind a backslash is not skipped, and then ends the loop
        if d = 0 then .error .invalidToken
        else (untilQuote i).map fun r => (c :: d :: r.1, r.2)
    else (untilQuote i).map fun r => (c :: r.1, r.2)

/-- `parse_string`. -/
def parseString : Text → Except Error (Text × Text)
  | [] => .error .overrun
  | c :: i =>
    if c ≠ 0x22 then .error .invalidToken
    else do
      let (raw, i) ← untilQuote i
      checkDelimiter .invalidToken i
      match scanString (raw ++ [0x22]) with
      | none => .error .invalidToken
      | some s => .ok (s, i)

/-! ## Literals and numbers -/

/-- Compares characters from the position on, up to the first that differs. -/
def literal : Text → Text → Except Error (Option Text)
  | [], i => .ok (some i)
  | _ :: _, [] => .error .overrun
  | p :: word, c :: i => if c = p then literal word i else .ok none

variable {N : Type}

/-- The first of the words that stands here; the value stays unset if none does. -/
def namedValue : List (Text × Value N) → Text → Except Error (Value N × Text)
  | [], i => .ok (.unknown, i)
  | (word, v) :: words, i => do
    match ← literal word i with
    | some i => return (v, i)
    | none => namedValue words i

/-- A word and the test behind it. -/
def parseNamed (words : List (Text × Value N)) (i : Text) : Except Error (Value N × Text) := do
  let (v, i) ← namedValue words i
  checkDelimiter .undefined i
  return (v, i)

/-- `parse_null`. -/
def parseNull : Text → Except Error (Value N × Text) := parseNamed [(ascii "null", .null)]

/-- `parse_boolean`. -/
def parseBoolean : Text → Except Error (Value N × Text) :=
  parseNamed [(ascii "true", .boolean true), (ascii "false", .boolean false)]

def isNum (c : UInt8) : Bool := 0x30 ≤ c && c ≤ 0x39

def isAlnum (c : UInt8) : Bool :=
  0x30 ≤ c && c ≤ 0x39 || 0x61 ≤ c && c ≤ 0x66 || 0x41 ≤ c && c ≤ 0x46

/-- `*i == '0' && *(i + 1) == 'x' && MINIJSON_IS_ALNUM(*(i + 2))`, and the rest behind them. -/
def hexStart (i : Text) : Except Error (Option Text) := do
  match ← literal (ascii "0x") i with
  | none => return none
  | some [] => .error .overrun
  | some (c :: i) => return if isAlnum c then some i else none

/-- A `.` or an `e` with its digits, of which there must be one. -/
def digitsAfter (mark : UInt8) : Text → Except Error Text
  | [] => .error .overrun
  | c :: i =>
    if c ≠ mark then .ok (c :: i)
    else
      match i with
      | [] => .error .overrun
      | d :: i => if isNum d then .ok (i.dropWhile isNum) else .error .invalidToken

/-- The position behind a number. -/
def numberEnd (i : Text) : Except Error Text := do
  match ← hexStart i with
  | some i => return i.dropWhile isAlnum
  | none => do
    let i ← digitsAfter 0x2e (i.dropWhile isNum)
    digitsAfter 0x65 i

/-- `parse_number`. -/
def parseNumber (fromChars : Text → N) (p : Text) : Except Error (Value N × Text) := do
  let i ← match p with
    | [] => .error .overrun
    | c :: i => numberEnd (if c = 0x2d then i else c :: i)
  checkDelimiter .invalidToken i
  return (.number (fromChars (p.take (p.length - i.length))), i)

/-! ## Values -/

def isBlank (c : UInt8) : Bool := c == 0x0d || c == 0x0a || c == 0x20 || c == 0x09

/-- `MINIJSON_SKIP`. -/
def skip (i : Text) : Text := i.dropWhile isBlank

/-- An object or an array, from behind its opening bracket. -/
def opened {α : Type} (close : UInt8) (empty : α) (loop : Text → Except Error (α × Text))
    (i : Text) : Except Error (α × Text) :=
  match skip i with
  | [] => .error .overrun
  | c :: i =>
    if c = 0 then .error .corruptedJson
    else if c = close then .ok (empty, i)
    else loop (c :: i)

/-- Behind an item of an object or an array: its end, or a comma and the next item. -/
def itemRead {α : Type} (close : UInt8) (done : α) (loop : Text → Except Error (α × Text))
    (i : Text) : Except Error (α × Text) :=
  match skip i with
  | [] => .error .overrun
  | c :: i =>
    if c = 0 then .error .corruptedJson
    else if c = close then .ok (done, i)
    else if c ≠ 0x2c then .error .invalidToken
    else
      match skip i with
      | [] => .error .overrun
      | c :: i => if c = 0 then .error .corruptedJson else loop (c :: i)

/-- The colon behind a key. -/
def colon (i : Text) : Except Error Text :=
  match skip i with
  | [] => .error .overrun
  | c :: i =>
    if c = 0 then .error .corruptedJson
    else if c ≠ 0x3a then .error .invalidToken
    else .ok i

section Parser

variable (fromChars : Text → N)

-- the condition of either `while (*i)` holds in every round: it is checked before the loop and at
-- the end of its body
mutual

/-- `parse_any`, with `parse_object` and `parse_array` up to their loops. -/
def parseAny : Nat → Text → Except Error (Value N × Text)
  | 0, _ => .error .unfinished
  | rounds + 1, i =>
    match skip i with
    | [] => .error .overrun
    | c :: i =>
      if c = 0x7b then opened 0x7d (.object []) (objectLoop rounds []) i
      else if c = 0x5b then opened 0x5d (.array []) (arrayLoop rounds []) i
      else if c = 0x74 ∨ c = 0x66 then parseBoolean (c :: i)
      else if c = 0x6e then parseNull (c :: i)
      else if c = 0x2d ∨ isNum c then parseNumber fromChars (c :: i)
      else if c = 0x22 then (parseString (c :: i)).map fun r => (.string r.1, r.2)
      else .error .invalidToken

/-- The loop of `parse_object`. -/
def objectLoop : Nat → List (Text × Value N) → Text → Except Error (Value N × Text)
  | 0, _, _ => .error .unfinished
  | rounds + 1, o, i => do
    let (key, i) ← parseString i
    let i ← colon i
    let (v, i) ← parseAny rounds i
    if key ∈ o.map Prod.fst then .error .duplicatedKey
    else itemRead 0x7d (.object (o ++ [(key, v)])) (objectLoop rounds (o ++ [(key, v)])) i

/-- The loop of `parse_array`. -/
def arrayLoop : Nat → List (Value N) → Text → Except Error (Value N × Text)
  | 0, _, _ => .error .unfinished
  | rounds + 1, a, i => do
    let (v, i) ← parseAny rounds i
    itemRead 0x5d (.array (a ++ [v])) (arrayLoop rounds (a ++ [v])) i

end

/-- `parse` of `json_str.c_str()`. -/
def parse (json : Text) : Except Error (Value N × Text) :=
  parseAny fromChars (2 * (json.length + 1)) (json ++ [0])

end Parser

/-! ## Termination -/

/-- The computation ends inside the text, and what it returns satisfies `P`. -/
def Ends {α : Type} (P : α → Prop) : Except Error α → Prop
  | .ok a => P a
  | .error e => e ≠ .overrun ∧ e ≠ .unfinished

theorem Ends.bind {α β : Type} {P : α → Prop} {Q : β → Prop} {r : Except Error α}
    {f : α → Except Error β} (h : Ends P r) (hf : ∀ a, P a → Ends Q (f a)) : Ends Q (r >>= f) := by
  cases r with
  | error e => exact h
  | ok a => exact hf a h

theorem Ends.map {α β : Type} {P : α → Prop} {Q : β → Prop} {r : Except Error α} {f : α → β}
    (h : Ends P r) (hf : ∀ a, P a → Q (f a)) : Ends Q (r.map f) := by
  cases r with
  | error e => exact h
  | ok a => exact hf a h

/-- A position before which fewer than `n` bytes are left, with the terminator among them. -/
def Before (n : Nat) (i : Text) : Prop := 0 ∈ i ∧ i.length < n

theorem Before.mono {n m : Nat} {i : Text} (h : Before n i) (hn : n ≤ m) : Before m i :=
  ⟨h.1, Nat.lt_of_lt_of_le h.2 hn⟩

theorem Before.tail {n : Nat} {c : UInt8} {i : Text} (h : Before n (c :: i)) (hc : c ≠ 0) :
    Before n i ∧ i.length + 1 < n := by
  have hlen : i.length + 1 < n := h.2
  refine ⟨⟨?_, Nat.lt_of_succ_lt hlen⟩, hlen⟩
  rcases List.mem_cons.mp h.1 with h0 | h0
  · exact absurd h0.symm hc
  · exact h0

/-- Bytes that are not the terminator can be skipped. -/
theorem Before.dropWhile {n : Nat} {i : Text} (h : Before n i) {p : UInt8 → Bool}
    (hp : p 0 = false) : Before n (i.dropWhile p) := by
  induction i with
  | nil => exact h
  | cons c i ih =>
    rw [List.dropWhile_cons]
    by_cases hc : p c = true
    · rw [if_pos hc]
      refine ih (h.tail ?_).1
      rintro rfl
      rw [hp] at hc
      cases hc
    · rwa [if_neg hc]

/-- There is a byte to look at. -/
theorem Before.cons {n : Nat} {i : Text} (h : Before n i) : ∃ c j, i = c :: j :=
  List.exists_cons_of_ne_nil (List.ne_nil_of_mem h.1)

theorem checkDelimiter_ends {n : Nat} {i : Text} (h : Before n i) {e : Error}
    (he : e ≠ .overrun ∧ e ≠ .unfinished) : Ends (fun _ => True) (checkDelimiter e i) := by
  obtain ⟨c, i, rfl⟩ := h.cons
  rw [checkDelimiter]
  split
  · exact trivial
  · exact he

theorem untilQuote_ends {n : Nat} {i : Text} (h : Before n i) :
    Ends (fun r => Before n r.2) (untilQuote i) := by
  fun_induction untilQuote i with
  | case1 => exact absurd h.1 List.not_mem_nil
  | case2 => exact ⟨by decide, by decide⟩
  | case3 i hc => exact (h.tail hc).1
  | case4 hc => exact absurd (h.tail hc).1.1 List.not_mem_nil
  | case5 => exact ⟨by decide, by decide⟩
  | case6 d i hd hc _ ih => exact (ih (((h.tail hc).1).tail hd).1).map fun _ hr => hr
  | case7 c i hc _ _ ih => exact (ih (h.tail hc).1).map fun _ hr => hr

theorem parseString_ends {n : Nat} {i : Text} (h : Before (n + 1) i) :
    Ends (fun r => Before n r.2) (parseString i) := by
  obtain ⟨c, i, rfl⟩ := h.cons
  rw [parseString]
  by_cases hc : c = 0x22
  · subst hc
    have hi : Before n i := ⟨(h.tail (by decide)).1.1, Nat.lt_of_succ_lt_succ h.2⟩
    rw [if_neg (by decide)]
    refine (untilQuote_ends hi).bind fun r hr => ?_
    refine (checkDelimiter_ends (e := .invalidToken) hr ⟨by decide, by decide⟩).bind fun _ _ => ?_
    split
    · exact ⟨by decide, by decide⟩
    · exact hr
  · rw [if_pos hc]
    exact ⟨by decide, by decide⟩

/-- A word that is found has been passed. -/
theorem literal_ends {n : Nat} {i : Text} (h : Before n i) {word : Text} (hword : 0 ∉ word) :
    Ends (fun r => ∀ j ∈ r, Before n j ∧ j.length + word.length = i.length) (literal word i) := by
  induction word generalizing i with
  | nil =>
    rintro j ⟨⟩
    exact ⟨h, rfl⟩
  | cons p word ih =>
    obtain ⟨c, i, rfl⟩ := h.cons
    unfold literal
    by_cases hc : c = p
    · have hc0 : c ≠ 0 := by
        rintro rfl
        exact hword (hc ▸ List.mem_cons_self)
      rw [if_pos hc]
      have hrest := ih (h.tail hc0).1 fun h0 => hword (List.mem_cons_of_mem _ h0)
      cases hr : literal word i with
      | error e =>
        rw [hr] at hrest
        exact hrest
      | ok r =>
        rw [hr] at hrest
        intro j hj
        obtain ⟨hbefore, hlen⟩ := hrest j hj
        refine ⟨hbefore, ?_⟩
        rw [List.length_cons, List.length_cons, ← hlen]
        omega
    · rw [if_neg hc]
      exact nofun

theorem Before.shorter {n m : Nat} {i j : Text} (h : Before (n + 1) i) (hj : Before (n + 1) j)
    (hlen : j.length + m = i.length) (hm : 0 < m) : Before n j := by
  have hlt := h.2
  exact ⟨hj.1, by omega⟩

variable {fromChars : Text → N}

theorem namedValue_ends {n : Nat} {i : Text} (h : Before (n + 1) i) {words : List (Text × Value N)}
    (hwords : ∀ w ∈ words, w.1 ≠ [] ∧ 0 ∉ w.1) :
    Ends (fun r => r = (.unknown, i) ∨ Before n r.2) (namedValue words i) := by
  induction words with
  | nil => exact .inl rfl
  | cons w words ih =>
    obtain ⟨hne, hzero⟩ := hwords w List.mem_cons_self
    refine (literal_ends h hzero).bind fun r hr => ?_
    cases r with
    | none => exact ih fun w hw => hwords w (List.mem_cons_of_mem _ hw)
    | some j =>
      obtain ⟨hj, hlen⟩ := hr j rfl
      exact .inr (h.shorter hj hlen (List.length_pos_of_ne_nil hne))

/-- If none of the words stands here, then neither does a delimiter. -/
theorem parseNamed_ends {n : Nat} {c : UInt8} {i : Text} (h : Before (n + 1) (c :: i))
    (hc : ¬ (c = 0 ∨ c ∈ delimiters)) {words : List (Text × Value N)}
    (hwords : ∀ w ∈ words, w.1 ≠ [] ∧ 0 ∉ w.1) :
    Ends (fun r => Before n r.2) (parseNamed words (c :: i)) := by
  refine (namedValue_ends h hwords).bind ?_
  rintro ⟨v, j⟩ (hnone | hj)
  · cases hnone
    dsimp only
    rw [checkDelimiter, if_neg hc]
    exact ⟨by decide, by decide⟩
  · exact (checkDelimiter_ends (e := .undefined) hj ⟨by decide, by decide⟩).bind fun _ _ => hj

theorem hexStart_ends {n : Nat} {i : Text} (h : Before n i) :
    Ends (fun r => ∀ j ∈ r, Before n j ∧ j.length < i.length) (hexStart i) := by
  unfold hexStart
  refine (literal_ends h (by decide)).bind fun r hr => ?_
  match r, hr with
  | none, _ => exact nofun
  | some [], hr => exact absurd (hr [] rfl).1.1 List.not_mem_nil
  | some (c :: j), hr =>
    obtain ⟨hj, hlen⟩ := hr _ rfl
    show ∀ k ∈ (if isAlnum c then some j else none), _
    intro k hk
    by_cases hc : isAlnum c = true
    · rw [if_pos hc] at hk
      cases hk
      refine ⟨(hj.tail ?_).1, ?_⟩
      · rintro rfl
        exact absurd hc (by decide)
      · rw [List.length_cons] at hlen
        omega
    · rw [if_neg hc] at hk
      cases hk

theorem digitsAfter_ends {n : Nat} {i : Text} (h : Before n i) {mark : UInt8} (hmark : mark ≠ 0) :
    Ends (Before n) (digitsAfter mark i) := by
  obtain ⟨c, i, rfl⟩ := h.cons
  unfold digitsAfter
  dsimp only
  split
  · exact h
  · rename_i hc
    have hi := (h.tail (by rwa [not_not.mp hc])).1
    obtain ⟨d, i, rfl⟩ := hi.cons
    dsimp only
    split
    · rename_i hd
      refine Before.dropWhile (hi.tail ?_).1 rfl
      rintro rfl
      exact absurd hd (by decide)
    · exact ⟨by decide, by decide⟩

/-- The digits of a number are passed; without a sign there is at least one. -/
theorem numberEnd_ends {n : Nat} {i : Text} (h : Before n i) :
    Ends (Before n) (numberEnd i) := by
  unfold numberEnd
  refine (hexStart_ends h).bind fun r hr => ?_
  cases r with
  | some j => exact Before.dropWhile (hr j rfl).1 rfl
  | none =>
    exact (digitsAfter_ends (Before.dropWhile h rfl) (by decide)).bind fun j hj =>
      digitsAfter_ends hj (by decide)

theorem numberEnd_digit {n : Nat} {c : UInt8} {i : Text} (h : Before (n + 1) (c :: i))
    (hc : isNum c = true) : Ends (Before n) (numberEnd (c :: i)) := by
  have hc0 : c ≠ 0 := by
    rintro rfl
    exact absurd hc (by decide)
  have hi : Before n i := ⟨(h.tail hc0).1.1, Nat.lt_of_succ_lt_succ h.2⟩
  unfold numberEnd
  refine (hexStart_ends h).bind fun r hr => ?_
  cases r with
  | some j =>
    obtain ⟨hj, hlen⟩ := hr j rfl
    have hlt := h.2
    exact Before.dropWhile ⟨hj.1, by omega⟩ rfl
  | none =>
    have hdrop : Before n ((c :: i).dropWhile isNum) := by
      rw [List.dropWhile_cons, if_pos hc]
      exact Before.dropWhile hi rfl
    exact (digitsAfter_ends hdrop (by decide)).bind fun j hj => digitsAfter_ends hj (by decide)

theorem parseNumber_ends {n : Nat} {c : UInt8} {i : Text} (hc : c = 0x2d ∨ isNum c = true)
    (h : Before (n + 1) (c :: i)) :
    Ends (fun r => Before n r.2) (parseNumber fromChars (c :: i)) := by
  have hend : Ends (Before n) (numberEnd (if c = 0x2d then i else c :: i)) := by
    by_cases hminus : c = 0x2d
    · rw [if_pos hminus]
      have hi := (h.tail (by rw [hminus]; decide)).1.1
      exact numberEnd_ends ⟨hi, Nat.lt_of_succ_lt_succ h.2⟩
    · rw [if_neg hminus]
      exact numberEnd_digit h (hc.resolve_left hminus)
  unfold parseNumber
  refine hend.bind fun j hj => ?_
  exact (checkDelimiter_ends (e := .invalidToken) hj ⟨by decide, by decide⟩).bind fun _ _ => hj

theorem colon_ends {n : Nat} {i : Text} (h : Before n i) : Ends (Before n) (colon i) := by
  have hskip := h.dropWhile (p := isBlank) rfl
  unfold colon skip
  obtain ⟨c, j, hj⟩ := hskip.cons
  rw [hj] at hskip ⊢
  dsimp only
  split
  · exact ⟨by decide, by decide⟩
  · rename_i hc
    split
    · exact ⟨by decide, by decide⟩
    · exact (hskip.tail hc).1

section Items

variable {α : Type} {n : Nat} {i : Text} {a : α} {loop : Text → Except Error (α × Text)}
  (hloop : ∀ j, Before n j → Ends (fun r => Before n r.2) (loop j))
include hloop

theorem opened_ends (h : Before n i) (close : UInt8) :
    Ends (fun r => Before n r.2) (opened close a loop i) := by
  have hskip := h.dropWhile (p := isBlank) rfl
  unfold opened skip
  obtain ⟨c, j, hj⟩ := hskip.cons
  rw [hj] at hskip ⊢
  dsimp only
  split
  · exact ⟨by decide, by decide⟩
  · rename_i hc
    split
    · exact (hskip.tail hc).1
    · exact hloop _ hskip

theorem itemRead_ends (h : Before n i) (close : UInt8) :
    Ends (fun r => Before n r.2) (itemRead close a loop i) := by
  have hskip := h.dropWhile (p := isBlank) rfl
  unfold itemRead skip
  obtain ⟨c, j, hj⟩ := hskip.cons
  rw [hj] at hskip ⊢
  dsimp only
  split
  · exact ⟨by decide, by decide⟩
  · rename_i hc
    have hrest := (hskip.tail hc).1
    split
    · exact hrest
    · split
      · exact ⟨by decide, by decide⟩
      · have hnext := hrest.dropWhile (p := isBlank) rfl
        obtain ⟨d, k, hk⟩ := hnext.cons
        rw [hk] at hnext ⊢
        dsimp only
        split
        · exact ⟨by decide, by decide⟩
        · exact hloop _ hnext

end Items

/-- On a text of at most half of `bound` bytes, the function ends and takes at least one byte. -/
def Rounds (bound : Nat) (f : Text → Except Error (Value N × Text)) : Prop :=
  ∀ i, 0 ∈ i → 2 * i.length ≤ bound → Ends (fun r => Before i.length r.2) (f i)

/-- A function that starts with fewer bytes left than before. -/
theorem Rounds.again {bound n : Nat} {f : Text → Except Error (Value N × Text)}
    (h : Rounds bound f) (hn : 2 * n ≤ bound + 2) (j : Text) (hj : Before n j) :
    Ends (fun r => Before n r.2) (f j) := by
  have hlt := hj.2
  have hend := h j hj.1 (by omega)
  cases hr : f j with
  | error e => rwa [hr] at hend
  | ok r =>
    rw [hr] at hend
    exact Before.mono hend (Nat.le_of_lt hlt)

theorem parseAny_step {rounds : Nat} (hobject : Rounds rounds (objectLoop fromChars rounds []))
    (harray : Rounds rounds (arrayLoop fromChars rounds [])) :
    Rounds (rounds + 2) (parseAny fromChars (rounds + 1)) := by
  intro i hi hlen
  have hskip : Before (i.length + 1) (skip i) :=
    Before.dropWhile ⟨hi, Nat.lt_succ_self _⟩ rfl
  obtain ⟨c, j, hj⟩ := hskip.cons
  rw [hj] at hskip
  unfold parseAny
  rw [hj]
  dsimp only
  have hinner : c ≠ 0 → Before i.length j := fun hc =>
    ⟨(hskip.tail hc).1.1, Nat.lt_of_succ_lt_succ hskip.2⟩
  split
  · rename_i hc
    exact opened_ends (hobject.again hlen) (hinner (by rw [hc]; decide)) _
  split
  · rename_i hc
    exact opened_ends (harray.again hlen) (hinner (by rw [hc]; decide)) _
  split
  · rename_i hc
    refine parseNamed_ends hskip ?_ ?_
    · rcases hc with rfl | rfl
      all_goals decide
    · simp only [List.mem_cons, List.not_mem_nil, or_false, forall_eq_or_imp, forall_eq]
      decide
  split
  · rename_i hc
    refine parseNamed_ends hskip ?_ ?_
    · rw [hc]
      decide
    · simp only [List.mem_singleton, forall_eq]
      decide
  split
  · rename_i hc
    exact parseNumber_ends hc hskip
  split
  · exact (parseString_ends hskip).map fun _ hr => hr
  · exact ⟨by decide, by decide⟩

theorem objectLoop_step {rounds : Nat} (hany : Rounds (rounds + 1) (parseAny fromChars rounds))
    (hobject : ∀ o, Rounds rounds (objectLoop fromChars rounds o)) (o : List (Text × Value N)) :
    Rounds (rounds + 1) (objectLoop fromChars (rounds + 1) o) := by
  intro i hi hlen
  unfold objectLoop
  refine (parseString_ends ⟨hi, Nat.lt_succ_self _⟩).bind fun key hkey => ?_
  refine (colon_ends hkey).bind fun j hj => ?_
  refine (hany.again (by omega) j hj).bind fun v hv => ?_
  dsimp only
  split
  · exact ⟨by decide, by decide⟩
  · exact itemRead_ends ((hobject _).again (by omega)) hv _

theorem arrayLoop_step {rounds : Nat} (hany : Rounds (rounds + 1) (parseAny fromChars rounds))
    (harray : ∀ a, Rounds rounds (arrayLoop fromChars rounds a)) (a : List (Value N)) :
    Rounds (rounds + 1) (arrayLoop fromChars (rounds + 1) a) := by
  intro i hi hlen
  unfold arrayLoop
  exact (hany i hi hlen).bind fun v hv => itemRead_ends ((harray _).again (by omega)) hv _

/-- Two rounds for every byte are enough. -/
theorem rounds_end (rounds : Nat) :
    Rounds (rounds + 1) (parseAny fromChars rounds) ∧
    (∀ o, Rounds rounds (objectLoop fromChars rounds o)) ∧
    (∀ a, Rounds rounds (arrayLoop fromChars rounds a)) := by
  induction rounds with
  | zero =>
    have hnone : ∀ {bound : Nat} (f : Text → Except Error (Value N × Text)), bound ≤ 1 →
        Rounds bound f := by
      intro bound f hbound i hi hlen
      have hpos := List.length_pos_of_mem hi
      omega
    exact ⟨hnone _ (by omega), fun _ => hnone _ (by omega), fun _ => hnone _ (by omega)⟩
  | succ rounds ih =>
    obtain ⟨ihAny, ihObject, ihArray⟩ := ih
    exact ⟨parseAny_step (ihObject []) (ihArray []), objectLoop_step ihAny ihObject,
      arrayLoop_step ihAny ihArray⟩

/-- For every text the parser ends, and it reads nothing behind the terminator. -/
theorem parse_ends (fromChars : Text → N) (json : Text) :
    Ends (fun r => 0 ∈ r.2) (parse fromChars json) := by
  have hrounds : Rounds _ (parseAny fromChars (2 * (json.length + 1))) := (rounds_end _).1
  have hend := hrounds (json ++ [0]) (List.mem_append_right _ List.mem_cons_self)
    (by rw [List.length_append, List.length_singleton]; omega)
  unfold parse
  cases hr : parseAny fromChars (2 * (json.length + 1)) (json ++ [0]) with
  | error e => rwa [hr] at hend
  | ok r =>
    rw [hr] at hend
    exact hend.1

end Json

end Fgds.Safetensors
