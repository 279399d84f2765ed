import Fgds.Lib.Decimal
import Fgds.Safetensors.Json

/-!
# Texts that the JSON parser reads

Rules for the texts that are written for the loader: numbers, strings without escapes, arrays and
objects whose items are separated by a comma and a blank. `Parses` says that a text is read as a
value wherever a delimiter follows it, so the rules compose.

* `parses_number`, `parses_string`: the leaves;
* `parses_array`, `parses_object`: from the items to the whole.
-/

namespace Fgds.Safetensors.Json

open Fgds.Lib

/-! ## The texts -/

/-- `"s"`. -/
def quoted (s : Text) : Text := 0x22 :: s ++ [0x22]

/-- Items with `", "` in between. -/
def commas : List Text → Text
  | [] => []
  | [t] => t
  | t :: u :: ts => t ++ ascii ", " ++ commas (u :: ts)

def arrayText (items : List Text) : Text := 0x5b :: commas items ++ [0x5d]

/-- `"key": text`. -/
def fieldText (f : Text × Text) : Text := quoted f.1 ++ ascii ": " ++ f.2

def objectText (fields : List (Text × Text)) : Text :=
  0x7b :: commas (fields.map fieldText) ++ [0x7d]

/-- Well-formed UTF-8 without quotes, backslashes and control characters. -/
inductive Plain : Text → Prop
  | nil : Plain []
  | ascii {c : UInt8} {t : Text} (hlo : 0x20 ≤ c) (hhi : c < 0x80) (hquote : c ≠ 0x22)
      (hback : c ≠ 0x5c) (ht : Plain t) : Plain (c :: t)
  | utf8 {c : UInt8} {ranges : List (UInt8 × UInt8)} {bytes t : Text}
      (hc : utf8Ranges c = some ranges) (hbytes : nextBytesInRange ranges bytes = some (bytes, []))
      (ht : Plain t) : Plain (c :: bytes ++ t)

/-- An ASCII character that is written as it is. -/
def unescaped (c : UInt8) : Bool := 0x20 ≤ c ∧ c < 0x80 ∧ c ≠ 0x22 ∧ c ≠ 0x5c

theorem plain_of_ascii {t : Text} (h : t.all unescaped) : Plain t := by
  induction t with
  | nil => exact .nil
  | cons c t ih =>
    rw [List.all_cons, Bool.and_eq_true, unescaped, decide_eq_true_eq] at h
    obtain ⟨⟨hlo, hhi, hquote, hback⟩, ht⟩ := h
    exact .ascii hlo hhi hquote hback (ih ht)

/-! ## Strings -/

/-- The first byte of a sequence and its ranges are above ASCII. -/
theorem utf8Ranges_high {c : UInt8} {ranges : List (UInt8 × UInt8)}
    (h : utf8Ranges c = some ranges) : 0x80 ≤ c ∧ ∀ r ∈ ranges, 0x80 ≤ r.1 := by
  have hall : ∀ n < 256, ∀ ranges ∈ utf8Ranges (.ofNat n),
      0x80 ≤ UInt8.ofNat n ∧ ranges.all fun r => 0x80 ≤ r.1 := by
    decide +kernel
  have hc := hall c.toNat c.toNat_lt
  rw [UInt8.ofNat_toNat] at hc
  obtain ⟨hfirst, hranges⟩ := hc ranges h
  exact ⟨hfirst, fun r hr => of_decide_eq_true (List.all_eq_true.mp hranges r hr)⟩

theorem nextBytesInRange_high {ranges : List (UInt8 × UInt8)} (hranges : ∀ r ∈ ranges, 0x80 ≤ r.1)
    {i bytes rest : Text} (h : nextBytesInRange ranges i = some (bytes, rest)) :
    ∀ c ∈ bytes, 0x80 ≤ c := by
  induction ranges generalizing i bytes with
  | nil =>
    cases h
    exact nofun
  | cons r ranges ih =>
    cases i with
    | nil => cases h
    | cons c i =>
      rw [nextBytesInRange] at h
      split at h
      · rename_i hin
        obtain ⟨s, hs, heq⟩ := Option.map_eq_some_iff.mp h
        cases heq
        intro d hd
        rcases List.mem_cons.mp hd with rfl | hd
        · exact UInt8.le_trans (hranges r List.mem_cons_self) hin.1
        · exact ih (fun r hr => hranges r (List.mem_cons_of_mem _ hr)) hs d hd
      · cases h

/-- The bytes of a sequence are taken from any text that starts with them. -/
theorem nextBytesInRange_append {ranges : List (UInt8 × UInt8)} {i bytes rest : Text}
    (h : nextBytesInRange ranges i = some (bytes, rest)) (more : Text) :
    nextBytesInRange ranges (i ++ more) = some (bytes, rest ++ more) := by
  induction ranges generalizing i bytes with
  | nil =>
    cases h
    rfl
  | cons r ranges ih =>
    cases i with
    | nil => cases h
    | cons c i =>
      rw [nextBytesInRange] at h
      split at h
      · rename_i hin
        obtain ⟨s, hs, heq⟩ := Option.map_eq_some_iff.mp h
        cases heq
        rw [List.cons_append, nextBytesInRange, if_pos hin, ih hs]
        rfl
      · cases h

theorem Plain.bytes {t : Text} (h : Plain t) : ∀ c ∈ t, c ≠ 0 ∧ c ≠ 0x22 ∧ c ≠ 0x5c := by
  have hhigh : ∀ c : UInt8, 0x80 ≤ c → c ≠ 0 ∧ c ≠ 0x22 ∧ c ≠ 0x5c := by
    rintro c hc
    refine ⟨?_, ?_, ?_⟩
    all_goals
      rintro rfl
      exact absurd hc (by decide)
  induction h with
  | nil => exact nofun
  | @ascii c t hlo hhi hquote hback ht ih =>
    intro d hd
    rcases List.mem_cons.mp hd with rfl | hd
    · refine ⟨?_, hquote, hback⟩
      rintro rfl
      exact absurd hlo (by decide)
    · exact ih d hd
  | @utf8 c ranges bytes t hc hbytes ht ih =>
    obtain ⟨hfirst, hranges⟩ := utf8Ranges_high hc
    intro d hd
    rcases List.mem_append.mp hd with hd | hd
    · rcases List.mem_cons.mp hd with rfl | hd
      · exact hhigh d hfirst
      · exact hhigh d (nextBytesInRange_high hranges hbytes d hd)
    · exact ih d hd

theorem untilQuote_plain {t : Text} (h : ∀ c ∈ t, c ≠ 0 ∧ c ≠ 0x22 ∧ c ≠ 0x5c) (rest : Text) :
    untilQuote (t ++ 0x22 :: rest) = .ok (t, rest) := by
  induction t with
  | nil =>
    rw [List.nil_append, untilQuote.eq_def]
    dsimp only
    rw [if_neg (by decide), if_pos rfl]
  | cons c t ih =>
    obtain ⟨hzero, hquote, hback⟩ := h c List.mem_cons_self
    unfold untilQuote
    rw [List.cons_append]
    dsimp only
    rw [if_neg hzero, if_neg hquote, if_neg hback, ih fun d hd => h d (List.mem_cons_of_mem _ hd)]
    rfl

theorem scanLoop_plain {t : Text} (h : Plain t) {rounds : Nat} (hrounds : t.length < rounds) :
    scanLoop rounds (t ++ [0x22]) = some t := by
  induction h generalizing rounds with
  | nil =>
    obtain ⟨rounds, rfl⟩ := Nat.exists_eq_succ_of_ne_zero (Nat.ne_of_gt hrounds)
    rfl
  | @ascii c t hlo hhi hquote hback ht ih =>
    obtain ⟨rounds, rfl⟩ := Nat.exists_eq_succ_of_ne_zero (Nat.ne_of_gt (Nat.zero_lt_of_lt hrounds))
    rw [List.cons_append, scanLoop, if_neg hquote, if_neg hback, if_neg (UInt8.not_lt.mpr hlo),
      if_pos hhi, ih (Nat.lt_of_succ_lt_succ hrounds)]
    rfl
  | @utf8 c ranges bytes t hc hbytes ht ih =>
    obtain ⟨rounds, rfl⟩ := Nat.exists_eq_succ_of_ne_zero (Nat.ne_of_gt (Nat.zero_lt_of_lt hrounds))
    obtain ⟨hzero, hquote, hback⟩ := (Plain.utf8 hc hbytes ht).bytes c List.mem_cons_self
    have hhigh := (utf8Ranges_high hc).1
    have hlow : ¬ c < 0x20 := fun hlt =>
      absurd (UInt8.lt_of_le_of_lt hhigh hlt) (by decide)
    have hlen : t.length < rounds := by
      simp only [List.length_append, List.length_cons] at hrounds
      omega
    rw [List.append_assoc, List.cons_append, scanLoop, if_neg hquote, if_neg hback, if_neg hlow,
      if_neg (UInt8.not_lt.mpr hhigh), hc]
    dsimp only
    rw [nextBytesInRange_append hbytes, List.nil_append]
    dsimp only
    rw [ih hlen]
    rfl

/-- What follows a value: the end of the text or a delimiter. -/
def Delimited (rest : Text) : Prop := ∃ c i, rest = c :: i ∧ (c = 0 ∨ c ∈ delimiters)

theorem checkDelimiter_ok {rest : Text} (h : Delimited rest) (e : Error) :
    checkDelimiter e rest = .ok () := by
  obtain ⟨c, i, rfl, hc⟩ := h
  rw [checkDelimiter, if_pos hc]

theorem parseString_plain {t : Text} (h : Plain t) {rest : Text} (hrest : Delimited rest) :
    parseString (quoted t ++ rest) = .ok (t, rest) := by
  have hquote : quoted t ++ rest = 0x22 :: (t ++ 0x22 :: rest) := by simp [quoted]
  have hscan : scanString (t ++ [0x22]) = some t :=
    scanLoop_plain h (by rw [List.length_append, List.length_singleton]; omega)
  rw [hquote, parseString, if_neg (by decide), untilQuote_plain h.bytes]
  change (checkDelimiter .invalidToken rest >>= _) = _
  rw [checkDelimiter_ok hrest]
  dsimp only [bind, Except.bind]
  rw [hscan]

/-! ## Values -/

section Rules

variable {N : Type} (fromChars : Text → N)

/-- The text is read as the value, whatever delimiter follows. Its first character is none that a
loop of the parser looks at. -/
structure Parses (text : Text) (v : Value N) : Prop where
  start : ∃ c t, text = c :: t ∧ isBlank c = false ∧ c ≠ 0 ∧ c ≠ 0x5d ∧ c ≠ 0x7d
  parse : ∀ {rounds : Nat} {rest : Text}, 2 * text.length ≤ rounds → Delimited rest →
    parseAny fromChars rounds (text ++ rest) = .ok (v, rest)

variable {fromChars}

theorem skip_cons {c : UInt8} (hc : isBlank c = false) (i : Text) : skip (c :: i) = c :: i := by
  rw [skip, List.dropWhile_cons, if_neg (by rw [hc]; decide)]

theorem Parses.skip {text : Text} {v : Value N} (h : Parses fromChars text v) (rest : Text) :
    Json.skip (text ++ rest) = text ++ rest := by
  obtain ⟨c, t, rfl, hc, _⟩ := h.start
  exact skip_cons hc _

/-- What follows a value does not continue a number. -/
theorem Delimited.head {rest : Text} (h : Delimited rest) :
    ∃ c i, rest = c :: i ∧ isNum c = false ∧ c ≠ 0x2e ∧ c ≠ 0x65 ∧ c ≠ 0x78 := by
  obtain ⟨c, i, rfl, hc⟩ := h
  have hall : ∀ c : UInt8, (c = 0 ∨ c ∈ delimiters) →
      isNum c = false ∧ c ≠ 0x2e ∧ c ≠ 0x65 ∧ c ≠ 0x78 := by
    intro c hc
    simp only [delimiters, List.mem_cons, List.not_mem_nil, or_false] at hc
    rcases hc with rfl | rfl | rfl | rfl | rfl | rfl | rfl | rfl
    all_goals decide
  exact ⟨c, i, rfl, hall c hc⟩

theorem isNum_digit {c : UInt8} (h : Decimal.IsDigit c) : isNum c = true := by
  rw [isNum, Bool.and_eq_true, decide_eq_true_eq, decide_eq_true_eq]
  exact h

theorem digitsAfter_other {mark : UInt8} {c : UInt8} (hc : c ≠ mark) (i : Text) :
    digitsAfter mark (c :: i) = .ok (c :: i) := by
  unfold digitsAfter
  dsimp only
  rw [if_pos hc]

/-- Digits are not the start of a hexadecimal number. -/
theorem hexStart_digits {ds rest : Text} (hne : ds ≠ []) (hds : ∀ c ∈ ds, Decimal.IsDigit c)
    (hrest : Delimited rest) : hexStart (ds ++ rest) = .ok none := by
  obtain ⟨d, i, rfl, _, _, _, hx⟩ := hrest.head
  obtain ⟨c, ds, rfl⟩ := List.exists_cons_of_ne_nil hne
  have hsecond : ∃ e j, ds ++ d :: i = e :: j ∧ e ≠ 0x78 := by
    cases ds with
    | nil => exact ⟨d, i, rfl, hx⟩
    | cons e ds =>
      refine ⟨e, ds ++ d :: i, rfl, ?_⟩
      rintro rfl
      exact absurd (hds 0x78 (List.mem_cons_of_mem _ List.mem_cons_self)) (by decide)
  obtain ⟨e, j, hj, he⟩ := hsecond
  have hword : ascii "0x" = [0x30, 0x78] := by decide
  have hlit : literal (ascii "0x") (c :: e :: j) = .ok none := by
    rw [hword, literal]
    by_cases hc : c = 0x30
    · rw [if_pos hc, literal, if_neg he]
    · rw [if_neg hc]
  unfold hexStart
  rw [List.cons_append, hj, hlit]
  rfl

theorem parseNumber_digits {ds rest : Text} (hne : ds ≠ []) (hds : ∀ c ∈ ds, Decimal.IsDigit c)
    (hrest : Delimited rest) :
    parseNumber fromChars (ds ++ rest) = .ok (.number (fromChars ds), rest) := by
  have hdrop : (ds ++ rest).dropWhile isNum = rest := by
    obtain ⟨d, i, rfl, hd, _⟩ := hrest.head
    rw [List.dropWhile_append_of_pos fun c hc => isNum_digit (hds c hc), List.dropWhile_cons,
      if_neg (by rw [hd]; decide)]
  have hend : numberEnd (ds ++ rest) = .ok rest := by
    obtain ⟨d, i, rfl, _, hdot, he, _⟩ := hrest.head
    unfold numberEnd
    rw [hexStart_digits hne hds hrest, hdrop]
    show (do
      let i ← digitsAfter 0x2e (d :: i)
      digitsAfter 0x65 i) = _
    rw [digitsAfter_other hdot]
    exact digitsAfter_other he i
  have htake : (ds ++ rest).take ((ds ++ rest).length - rest.length) = ds := by
    rw [List.length_append, Nat.add_sub_cancel, List.take_left]
  obtain ⟨c, t, rfl⟩ := List.exists_cons_of_ne_nil hne
  have hminus : c ≠ 0x2d := by
    rintro rfl
    exact absurd (hds 0x2d List.mem_cons_self) (by decide)
  unfold parseNumber
  rw [List.cons_append] at hend htake ⊢
  dsimp only
  rw [if_neg hminus, hend]
  show (do
    checkDelimiter .invalidToken rest
    return (.number (fromChars _), rest) : Except Error (Value N × Text)) = _
  rw [checkDelimiter_ok hrest, htake]
  rfl

/-- Numerals. -/
theorem parses_number (n : Nat) :
    Parses fromChars (Decimal.text n) (.number (fromChars (Decimal.text n))) := by
  have hds : ∀ c ∈ Decimal.text n, Decimal.IsDigit c := fun c hc => Decimal.text_digit hc
  have hne := Decimal.text_ne_nil n
  obtain ⟨c, t, hct⟩ := List.exists_cons_of_ne_nil hne
  have hc : Decimal.IsDigit c := hds c (hct ▸ List.mem_cons_self)
  have hfirst : isBlank c = false ∧ c ≠ 0 ∧ (c ≠ 0x5d ∧ c ≠ 0x7d) ∧ c ≠ 0x7b ∧ c ≠ 0x5b ∧
      ¬ (c = 0x74 ∨ c = 0x66) ∧ c ≠ 0x6e := by
    have hall : ∀ n < 256, Decimal.IsDigit (.ofNat n) → isBlank (.ofNat n) = false ∧
        UInt8.ofNat n ≠ 0 ∧ (UInt8.ofNat n ≠ 0x5d ∧ UInt8.ofNat n ≠ 0x7d) ∧
        UInt8.ofNat n ≠ 0x7b ∧ UInt8.ofNat n ≠ 0x5b ∧
        ¬ (UInt8.ofNat n = 0x74 ∨ UInt8.ofNat n = 0x66) ∧ UInt8.ofNat n ≠ 0x6e := by
      decide +kernel
    have hthis := hall c.toNat c.toNat_lt
    rw [UInt8.ofNat_toNat] at hthis
    exact hthis hc
  obtain ⟨hblank, hzero, hclose, hbrace, hbracket, hbool, hnull⟩ := hfirst
  refine ⟨⟨c, t, hct, hblank, hzero, hclose⟩, ?_⟩
  intro rounds rest hrounds hrest
  have hpos := List.length_pos_of_ne_nil hne
  obtain ⟨rounds, rfl⟩ := Nat.exists_eq_succ_of_ne_zero (by omega : rounds ≠ 0)
  have hnumber : parseNumber fromChars _ = _ := parseNumber_digits hne hds hrest
  rw [hct] at hnumber ⊢
  unfold parseAny
  rw [List.cons_append, skip_cons hblank]
  dsimp only
  rw [if_neg hbrace, if_neg hbracket, if_neg hbool, if_neg hnull, if_pos (.inr (isNum_digit hc))]
  exact hnumber

theorem parses_string {t : Text} (h : Plain t) : Parses fromChars (quoted t) (.string t) where
  start := ⟨0x22, t ++ [0x22], rfl, by decide, by decide, by decide, by decide⟩
  parse := by
    intro rounds rest hrounds hrest
    have hlen : 2 ≤ (quoted t).length := by simp [quoted]
    obtain ⟨rounds, rfl⟩ := Nat.exists_eq_succ_of_ne_zero (by omega : rounds ≠ 0)
    have hstring := parseString_plain h hrest
    have hquote : quoted t ++ rest = 0x22 :: (t ++ 0x22 :: rest) := by simp [quoted]
    rw [hquote] at hstring ⊢
    unfold parseAny
    rw [skip_cons (by decide)]
    dsimp only
    rw [if_neg (by decide), if_neg (by decide), if_neg (by decide), if_neg (by decide),
      if_neg (by decide), if_pos rfl, hstring]
    rfl

end Rules

/-! ## Items -/

section Items

variable {α σ : Type} (item : Nat → σ → Text → Except Error (σ × Text))

/-- The text is read as one item, which takes the state of the loop from `s` to `s'`. -/
structure Item (t : Text) (s s' : σ) : Prop where
  start : ∃ c i, t = c :: i ∧ isBlank c = false ∧ c ≠ 0 ∧ c ≠ 0x5d ∧ c ≠ 0x7d
  read : ∀ {rounds : Nat} {rest : Text}, 2 * t.length ≤ rounds → Delimited rest →
    item rounds s (t ++ rest) = .ok (s', rest)

/-- At least one item. -/
inductive Items : List Text → σ → σ → Prop
  | one {t : Text} {s s' : σ} (h : Item item t s s') : Items [t] s s'
  | more {t u : Text} {ts : List Text} {s s' s'' : σ} (h : Item item t s s')
      (hmore : Items (u :: ts) s' s'') : Items (t :: u :: ts) s s''

variable {item}

theorem Items.start {ts : List Text} {s s' : σ} (h : Items item ts s s') :
    ∃ c i, commas ts = c :: i ∧ isBlank c = false ∧ c ≠ 0 ∧ c ≠ 0x5d ∧ c ≠ 0x7d := by
  cases h with
  | one h => exact h.start
  | more h _ =>
    obtain ⟨c, i, rfl, hc⟩ := h.start
    exact ⟨c, _, rfl, hc⟩

/-- The bracket that ends the items. -/
def IsClose (close : UInt8) : Prop := close = 0x5d ∨ close = 0x7d

theorem delimited_close {close : UInt8} (h : IsClose close) (rest : Text) :
    Delimited (close :: rest) := by
  refine ⟨close, rest, rfl, .inr ?_⟩
  rcases h with rfl | rfl
  all_goals decide

theorem itemRead_close {close : UInt8} (h : IsClose close) (a : α)
    (loop : Text → Except Error (α × Text)) (rest : Text) :
    itemRead close a loop (close :: rest) = .ok (a, rest) := by
  have hclose : isBlank close = false ∧ close ≠ 0 := by
    rcases h with rfl | rfl
    all_goals decide
  unfold itemRead
  rw [skip_cons hclose.1]
  dsimp only
  rw [if_neg hclose.2, if_pos rfl]

theorem itemRead_comma {close c : UInt8} (h : IsClose close) (hblank : isBlank c = false)
    (hzero : c ≠ 0) (a : α) (loop : Text → Except Error (α × Text)) (i : Text) :
    itemRead close a loop (ascii ", " ++ c :: i) = loop (c :: i) := by
  have hclose : (0x2c : UInt8) ≠ close := by
    rcases h with rfl | rfl
    all_goals decide
  have htext : ascii ", " ++ c :: i = 0x2c :: 0x20 :: c :: i := by
    rw [show ascii ", " = [0x2c, 0x20] by decide]
    rfl
  have hnext : skip (0x20 :: c :: i) = c :: i := by
    rw [skip, List.dropWhile_cons, if_pos (by decide)]
    exact skip_cons hblank i
  unfold itemRead
  rw [htext, skip_cons (by decide)]
  dsimp only
  rw [if_neg (by decide), if_neg hclose, if_neg (by decide), hnext]
  dsimp only
  rw [if_neg hzero]

/-- A loop that reads an item in every round reads all of them. -/
theorem loop_items {loop : Nat → σ → Text → Except Error (α × Text)} (done : σ → α)
    {close : UInt8} (hclose : IsClose close)
    (hloop : ∀ rounds s i, loop (rounds + 1) s i =
      item rounds s i >>= fun r => itemRead close (done r.1) (loop rounds r.1) r.2)
    {ts : List Text} {s s' : σ} (h : Items item ts s s') {rounds : Nat}
    (hrounds : 2 * (commas ts).length < rounds) (rest : Text) :
    loop rounds s (commas ts ++ close :: rest) = .ok (done s', rest) := by
  induction h generalizing rounds with
  | one h =>
    obtain ⟨rounds, rfl⟩ := Nat.exists_eq_succ_of_ne_zero (Nat.ne_of_gt (Nat.zero_lt_of_lt hrounds))
    rw [commas] at hrounds ⊢
    rw [Nat.succ_eq_add_one, hloop, h.read (by omega) (delimited_close hclose rest)]
    exact itemRead_close hclose _ _ rest
  | @more t u ts s s' s'' h hmore ih =>
    obtain ⟨rounds, rfl⟩ := Nat.exists_eq_succ_of_ne_zero (Nat.ne_of_gt (Nat.zero_lt_of_lt hrounds))
    rw [commas] at hrounds ⊢
    have hcomma : (ascii ", ").length = 2 := by decide
    rw [List.length_append, List.length_append, hcomma] at hrounds
    have hnext := ih (by omega : 2 * (commas (u :: ts)).length < rounds)
    obtain ⟨c, i, hci, hblank, hzero, _⟩ := hmore.start
    have hdelim : Delimited (ascii ", " ++ (commas (u :: ts) ++ close :: rest)) :=
      ⟨0x2c, _, rfl, .inr (by decide)⟩
    rw [Nat.succ_eq_add_one, hloop, List.append_assoc, List.append_assoc,
      h.read (by omega) hdelim]
    rw [hci, List.cons_append] at hnext ⊢
    show itemRead close (done s') (loop rounds s') (ascii ", " ++ c :: (i ++ close :: rest)) = _
    rw [itemRead_comma hclose hblank hzero]
    exact hnext

/-- An opening bracket, the items and the closing one. -/
theorem opened_items {loop : Text → Except Error (α × Text)} {empty a : α} {close : UInt8}
    {ts : List Text} {s s' : σ} (hclose : IsClose close) (h : Items item ts s s') {rest : Text}
    (hloop : loop (commas ts ++ close :: rest) = .ok (a, rest)) :
    opened close empty loop (commas ts ++ close :: rest) = .ok (a, rest) := by
  obtain ⟨c, i, hci, hblank, hzero, hbracket, hbrace⟩ := h.start
  have hother : c ≠ close := by
    rcases hclose with rfl | rfl
    · exact hbracket
    · exact hbrace
  unfold opened
  rw [hci, List.cons_append] at hloop ⊢
  rw [skip_cons hblank]
  dsimp only
  rw [if_neg hzero, if_neg hother]
  exact hloop

theorem opened_empty {loop : Text → Except Error (α × Text)} {empty : α} {close : UInt8}
    (hclose : IsClose close) (rest : Text) :
    opened close empty loop (close :: rest) = .ok (empty, rest) := by
  have hchar : isBlank close = false ∧ close ≠ 0 := by
    rcases hclose with rfl | rfl
    all_goals decide
  unfold opened
  rw [skip_cons hchar.1]
  dsimp only
  rw [if_neg hchar.2, if_pos rfl]

end Items

section Brackets

variable {N : Type} {fromChars : Text → N}

theorem array_items {ts : List Text} {vs : List (Value N)}
    (h : List.Forall₂ (Parses fromChars) ts vs) (hne : ts ≠ []) (a : List (Value N)) :
    Items (fun rounds a i => (parseAny fromChars rounds i).map fun r => (a ++ [r.1], r.2))
      ts a (a ++ vs) := by
  induction h generalizing a with
  | nil => exact absurd rfl hne
  | @cons t v ts vs ht hts ih =>
    have hitem : Item (fun rounds a i =>
        (parseAny fromChars rounds i).map fun r => (a ++ [r.1], r.2)) t a (a ++ [v]) := by
      refine ⟨ht.start, fun hrounds hrest => ?_⟩
      rw [ht.parse hrounds hrest]
      rfl
    cases hts with
    | nil => exact .one hitem
    | cons hu hts =>
      rw [List.append_cons]
      exact .more hitem (ih (List.cons_ne_nil _ _) _)

theorem parses_array {ts : List Text} {vs : List (Value N)}
    (h : List.Forall₂ (Parses fromChars) ts vs) :
    Parses fromChars (arrayText ts) (.array vs) where
  start := ⟨0x5b, _, rfl, by decide⟩
  parse := by
    intro rounds rest hrounds hrest
    have hclose : IsClose 0x5d := .inl rfl
    have htext : arrayText ts ++ rest = 0x5b :: (commas ts ++ 0x5d :: rest) := by
      simp [arrayText]
    have hlen : (arrayText ts).length = (commas ts).length + 2 := by simp [arrayText]
    rw [hlen] at hrounds
    obtain ⟨rounds, rfl⟩ := Nat.exists_eq_succ_of_ne_zero (by omega : rounds ≠ 0)
    unfold parseAny
    rw [htext, skip_cons (by decide)]
    dsimp only
    rw [if_neg (by decide), if_pos rfl]
    cases h with
    | nil => exact opened_empty hclose rest
    | cons ht hts =>
      have hitems := array_items (.cons ht hts) (List.cons_ne_nil _ _) []
      refine opened_items hclose hitems (loop_items Value.array hclose ?_ hitems ?_ rest)
      · intro rounds a i
        rw [arrayLoop]
        cases parseAny fromChars rounds i with
        | error e => rfl
        | ok r => rfl
      · omega

/-- One field read in a round of the loop of `parse_object`. -/
def field (fromChars : Text → N) (rounds : Nat) (o : List (Text × Value N)) (i : Text) :
    Except Error (List (Text × Value N) × Text) := do
  let (key, i) ← parseString i
  let i ← colon i
  let (v, i) ← parseAny fromChars rounds i
  if key ∈ o.map Prod.fst then .error .duplicatedKey
  else .ok (o ++ [(key, v)], i)

theorem colon_text (i : Text) : colon (ascii ": " ++ i) = .ok (0x20 :: i) := by
  have htext : ascii ": " ++ i = 0x3a :: 0x20 :: i := by
    rw [show ascii ": " = [0x3a, 0x20] by decide]
    rfl
  unfold colon
  rw [htext, skip_cons (by decide)]
  dsimp only
  rw [if_neg (by decide), if_neg (by decide)]

theorem parseAny_blank (rounds : Nat) (i : Text) :
    parseAny fromChars rounds (0x20 :: i) = parseAny fromChars rounds i := by
  cases rounds with
  | zero => rfl
  | succ rounds =>
    have hskip : skip (0x20 :: i) = skip i := by
      rw [skip, List.dropWhile_cons, if_pos (by decide)]
      rfl
    rw [parseAny.eq_def, parseAny.eq_def]
    dsimp only
    rw [hskip]

/-- A field whose key is new is added to the object. -/
theorem field_item {k t : Text} {v : Value N} (hk : Plain k) (ht : Parses fromChars t v)
    {o : List (Text × Value N)} (hnew : k ∉ o.map Prod.fst) :
    Item (field fromChars) (fieldText (k, t)) o (o ++ [(k, v)]) where
  start := ⟨0x22, _, rfl, by decide⟩
  read := by
    intro rounds rest hrounds hrest
    have htext : fieldText (k, t) ++ rest = quoted k ++ (ascii ": " ++ (t ++ rest)) := by
      simp [fieldText]
    have hlen : t.length ≤ (fieldText (k, t)).length := by
      rw [fieldText, List.length_append]
      exact Nat.le_add_left _ _
    have hcolon : Delimited (ascii ": " ++ (t ++ rest)) := ⟨0x3a, _, rfl, .inr (by decide)⟩
    unfold field
    rw [htext, parseString_plain hk hcolon]
    show (do
      let i ← colon (ascii ": " ++ (t ++ rest))
      let (v, i) ← parseAny fromChars rounds i
      if k ∈ o.map Prod.fst then .error .duplicatedKey
      else .ok (o ++ [(k, v)], i) : Except Error (List (Text × Value N) × Text)) = _
    rw [colon_text]
    show (do
      let (v, i) ← parseAny fromChars rounds (0x20 :: (t ++ rest))
      if k ∈ o.map Prod.fst then .error .duplicatedKey
      else .ok (o ++ [(k, v)], i) : Except Error (List (Text × Value N) × Text)) = _
    rw [parseAny_blank, ht.parse (by omega) hrest]
    exact if_neg hnew

theorem objectLoop_field (rounds : Nat) (o : List (Text × Value N)) (i : Text) :
    objectLoop fromChars (rounds + 1) o i = field fromChars rounds o i >>= fun r =>
      itemRead 0x7d (.object r.1) (objectLoop fromChars rounds r.1) r.2 := by
  rw [objectLoop, field]
  simp only [bind_assoc]
  refine bind_congr fun r => bind_congr fun i => bind_congr fun q => ?_
  split
  · rfl
  · rfl

theorem object_items {fs : List (Text × Text)} {vs : List (Text × Value N)}
    (h : List.Forall₂ (fun f v => f.1 = v.1 ∧ Plain f.1 ∧ Parses fromChars f.2 v.2) fs vs)
    (hne : fs ≠ []) (o : List (Text × Value N)) (hnodup : ((o ++ vs).map Prod.fst).Nodup) :
    Items (field fromChars) (fs.map fieldText) o (o ++ vs) := by
  induction h generalizing o with
  | nil => exact absurd rfl hne
  | @cons f v fs vs hf hfs ih =>
    obtain ⟨k, t⟩ := f
    obtain ⟨k', v⟩ := v
    obtain ⟨hkey, hplain, hparses⟩ := hf
    dsimp only at hkey hplain hparses
    subst hkey
    have hnew : k ∉ o.map Prod.fst := by
      intro hk
      rw [List.map_append, List.map_cons] at hnodup
      exact (List.nodup_append.mp hnodup).2.2 k hk k List.mem_cons_self rfl
    rw [List.append_cons] at hnodup ⊢
    cases hfs with
    | nil =>
      rw [List.append_nil]
      exact .one (field_item hplain hparses hnew)
    | cons hg hgs =>
      exact .more (field_item hplain hparses hnew) (ih (List.cons_ne_nil _ _) _ hnodup)

theorem parses_object {fs : List (Text × Text)} {vs : List (Text × Value N)}
    (h : List.Forall₂ (fun f v => f.1 = v.1 ∧ Plain f.1 ∧ Parses fromChars f.2 v.2) fs vs)
    (hnodup : (vs.map Prod.fst).Nodup) :
    Parses fromChars (objectText fs) (.object vs) where
  start := ⟨0x7b, _, rfl, by decide⟩
  parse := by
    intro rounds rest hrounds hrest
    have hclose : IsClose 0x7d := .inr rfl
    have htext : objectText fs ++ rest = 0x7b :: (commas (fs.map fieldText) ++ 0x7d :: rest) := by
      simp [objectText]
    have hlen : (objectText fs).length = (commas (fs.map fieldText)).length + 2 := by
      simp [objectText]
    rw [hlen] at hrounds
    obtain ⟨rounds, rfl⟩ := Nat.exists_eq_succ_of_ne_zero (by omega : rounds ≠ 0)
    unfold parseAny
    rw [htext, skip_cons (by decide)]
    dsimp only
    rw [if_pos rfl]
    cases h with
    | nil => exact opened_empty hclose rest
    | cons hf hfs =>
      have hitems := object_items (.cons hf hfs) (List.cons_ne_nil _ _) [] hnodup
      refine opened_items hclose hitems (loop_items Value.object hclose ?_ hitems ?_ rest)
      · exact objectLoop_field
      · omega

/-- A whole text. -/
theorem Parses.whole {text : Text} {v : Value N} (h : Parses fromChars text v) (blanks : Nat) :
    Json.parse fromChars (text ++ List.replicate blanks 0x20) =
      .ok (v, List.replicate blanks 0x20 ++ [0]) := by
  have hrest : Delimited (List.replicate blanks 0x20 ++ [0]) := by
    cases blanks with
    | zero => exact ⟨0, [], rfl, .inl rfl⟩
    | succ n => exact ⟨0x20, List.replicate n 0x20 ++ [0], rfl, .inr (by decide)⟩
  rw [Json.parse, List.append_assoc]
  refine h.parse ?_ hrest
  rw [List.length_append]
  omega

end Brackets

end Fgds.Safetensors.Json
