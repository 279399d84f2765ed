import Fgds.Lib.Percent

/-!
# The files of a cache key

`_key_to_path` of the storage backend. The two directory levels are cut from the decimal text of
`chunk_hash`; the file name is the percent-encoded key. The metadata file has one suffix more,
and while a file is written it has a random suffix.

* `dataPath_eq`: where the file of a key is, also when the hash has fewer than four characters;
* `dataPath_injective`: distinct keys have distinct files;
* `dataPath_ne_metaPath`, `tmpPath_ne_dataPath`, `tmpPath_ne_metaPath`, `tmpPath_inj`: a file that
  is being written is never one of the others.
-/

namespace Fgds.Backend

open Fgds.Lib.Percent

/-- A Python `str`. -/
abbrev Str := List Char

/-- `_METADATA_FILE_SUFFIX`. -/
def metadataFileSuffix : Str := ".metadata".toList

/-- `_DATA_FILE_SUFFIX`. -/
def dataFileSuffix : Str := ".kvcache.safetensors".toList

/-- The cache keys: `to_string` in UTF-8, and `parse_cache_key`, where `none` is a
`ValueError`. -/
structure CacheKeys (Key : Type) where
  chunkHash : Key → Int
  toBytes : Key → List UInt8
  parse : List UInt8 → Option Key
  parse_toBytes : ∀ k, parse (toBytes k) = some k

/-! ## `_key_to_path` -/

/-- `str` of an `int`. -/
def strInt : Int → Str
  | .ofNat n => Nat.toDigits 10 n
  | .negSucc n => '-' :: Nat.toDigits 10 (n + 1)

/-- `os.path.join` of two paths. -/
def osPathJoin (a b : Str) : Str :=
  if b.head? = some '/' then b
  else if a = [] ∨ a.getLast? = some '/' then a ++ b
  else a ++ '/' :: b

structure KeyPath where
  path : Str
  subdirKey : Str
  l1Dir : Str
  l2Dir : Str

section Paths

variable {Key : Type} (keys : CacheKeys Key) (fgdsPath : Str)

/-- `hash_str`. -/
def hashStr (key : Key) : Str := strInt (keys.chunkHash key)

def l1Dir (key : Key) : Str := (hashStr keys key).take 2

def l2Dir (key : Key) : Str := ((hashStr keys key).drop 2).take 2

/-- The name of the data file. -/
def dataName (key : Key) : Str := quote (keys.toBytes key) ++ dataFileSuffix

/-- `_key_to_path`. -/
def keyToPath (key : Key) : KeyPath where
  path := osPathJoin (osPathJoin (osPathJoin fgdsPath (l1Dir keys key)) (l2Dir keys key))
    (dataName keys key)
  subdirKey := l1Dir keys key ++ l2Dir keys key
  l1Dir := l1Dir keys key
  l2Dir := l2Dir keys key

def dataPath (key : Key) : Str := (keyToPath keys fgdsPath key).path

def metaPath (key : Key) : Str := dataPath keys fgdsPath key ++ metadataFileSuffix

end Paths

/-- `".tmp" + rand_suffix(8)`: eight hexadecimal digits. -/
structure TmpSuffix where
  hex : Str
  length : hex.length = 8
  digits : ∀ c ∈ hex, c.isDigit ∨ 'a' ≤ c ∧ c ≤ 'f'

def TmpSuffix.text (tmp : TmpSuffix) : Str := ".tmp".toList ++ tmp.hex

/-- `path + tmp`. -/
def tmpPath (path : Str) (tmp : TmpSuffix) : Str := path ++ tmp.text

/-! ## Components of a path -/

/-- The last component of a path is determined. -/
theorem append_slash_inj {x y n m : Str} (hn : '/' ∉ n) (hm : '/' ∉ m)
    (h : x ++ '/' :: n = y ++ '/' :: m) : x = y ∧ n = m := by
  rcases List.append_eq_append_iff.mp h with ⟨z, rfl, hz⟩ | ⟨z, rfl, hz⟩
  · cases z with
    | nil => simpa using hz
    | cons c z =>
      obtain ⟨_, rfl⟩ := List.cons.inj hz
      exact absurd (by simp) hn
  · cases z with
    | nil =>
      obtain ⟨_, rfl⟩ := List.cons.inj hz
      simp
    | cons c z =>
      obtain ⟨_, rfl⟩ := List.cons.inj hz
      exact absurd (by simp) hm

/-- The first component of a path is determined. -/
theorem slash_append_inj {x y n m : Str} (hx : '/' ∉ x) (hy : '/' ∉ y)
    (h : x ++ '/' :: n = y ++ '/' :: m) : x = y ∧ n = m := by
  rcases List.append_eq_append_iff.mp h with ⟨z, rfl, hz⟩ | ⟨z, rfl, hz⟩
  · cases z with
    | nil => simpa using hz
    | cons c z =>
      obtain ⟨rfl, _⟩ := List.cons.inj hz
      exact absurd (by simp) hy
  · cases z with
    | nil =>
      obtain ⟨_, rfl⟩ := List.cons.inj hz
      simp
    | cons c z =>
      obtain ⟨rfl, _⟩ := List.cons.inj hz
      exact absurd (by simp) hx

theorem strInt_ne_nil (n : Int) : strInt n ≠ [] := by
  cases n with
  | ofNat n => exact Nat.toDigits_ne_nil
  | negSucc n => exact List.cons_ne_nil _ _

theorem slash_not_mem_strInt (n : Int) : '/' ∉ strInt n := by
  have hdigits : ∀ m, '/' ∉ Nat.toDigits 10 m := fun m hm => by
    have hdigit := Nat.isDigit_of_mem_toDigits (by decide) (by decide) hm
    revert hdigit
    decide
  cases n with
  | ofNat n => exact hdigits n
  | negSucc n =>
    intro h
    rcases List.mem_cons.mp h with h | h
    · cases h
    · exact hdigits _ h

/-- The directory with the separator that `os.path.join` puts behind it. -/
def dirSlash (dir : Str) : Str :=
  if dir = [] ∨ dir.getLast? = some '/' then dir else dir ++ ['/']

theorem head?_ne_slash {s : Str} (h : '/' ∉ s) : s.head? ≠ some '/' := fun hs =>
  h (List.mem_of_head? hs)

theorem osPathJoin_eq (a : Str) {b : Str} (hb : '/' ∉ b) : osPathJoin a b = dirSlash a ++ b := by
  unfold osPathJoin dirSlash
  rw [if_neg (head?_ne_slash hb)]
  split
  · rfl
  · rw [List.append_assoc]
    rfl

theorem dirSlash_append {a b : Str} (hb : '/' ∉ b) (hne : b ≠ []) :
    dirSlash (a ++ b) = a ++ b ++ ['/'] := by
  unfold dirSlash
  rw [if_neg]
  rintro (hnil | hlast)
  · exact hne (List.append_eq_nil_iff.mp hnil).2
  · rw [List.getLast?_append_of_ne_nil _ hne] at hlast
    exact hb (List.mem_of_getLast? hlast)

theorem dirSlash_of_slash (a : Str) : dirSlash (a ++ ['/']) = a ++ ['/'] := by
  unfold dirSlash
  rw [if_pos]
  right
  simp

section Paths

variable {Key : Type} (keys : CacheKeys Key) (fgdsPath : Str) (key : Key)

theorem l1Dir_ne_nil : l1Dir keys key ≠ [] := by
  have hne := strInt_ne_nil (keys.chunkHash key)
  simpa [l1Dir, hashStr] using hne

theorem slash_not_mem_l1Dir : '/' ∉ l1Dir keys key := fun h =>
  slash_not_mem_strInt _ (List.mem_of_mem_take h)

theorem slash_not_mem_l2Dir : '/' ∉ l2Dir keys key := fun h =>
  slash_not_mem_strInt _ (List.mem_of_mem_drop (List.mem_of_mem_take h))

theorem slash_not_mem_dataName : '/' ∉ dataName keys key := by
  intro h
  rcases List.mem_append.mp h with h | h
  · exact slash_not_mem_quote _ h
  · revert h
    decide

/-- The directory of the files of a key: two levels, or one if the hash has one or two
characters. -/
def keyDir : Str :=
  dirSlash fgdsPath ++ l1Dir keys key ++
    if l2Dir keys key = [] then [] else '/' :: l2Dir keys key

theorem dataPath_eq : dataPath keys fgdsPath key =
    keyDir keys fgdsPath key ++ '/' :: dataName keys key := by
  have h1 := slash_not_mem_l1Dir keys key
  have h2 := slash_not_mem_l2Dir keys key
  have hdir : dirSlash (osPathJoin fgdsPath (l1Dir keys key)) =
      dirSlash fgdsPath ++ l1Dir keys key ++ ['/'] := by
    rw [osPathJoin_eq _ h1, dirSlash_append h1 (l1Dir_ne_nil keys key)]
  rw [dataPath, keyToPath, osPathJoin_eq _ (slash_not_mem_dataName keys key), osPathJoin_eq _ h2,
    hdir, keyDir]
  by_cases hnil : l2Dir keys key = []
  · rw [hnil, List.append_nil, dirSlash_of_slash]
    simp
  · rw [dirSlash_append h2 hnil, if_neg hnil]
    simp

/-- Distinct keys have distinct files: already their names differ. -/
theorem dataPath_injective : Function.Injective (dataPath keys fgdsPath) := by
  intro k k' h
  rw [dataPath_eq, dataPath_eq] at h
  obtain ⟨_, hname⟩ := append_slash_inj (slash_not_mem_dataName keys k)
    (slash_not_mem_dataName keys k') h
  have hquote : quote (keys.toBytes k) = quote (keys.toBytes k') := List.append_cancel_right hname
  have hbytes : keys.toBytes k = keys.toBytes k' := by
    rw [← unquote_quote (keys.toBytes k), hquote, unquote_quote]
  have hparse := keys.parse_toBytes k
  rw [hbytes, keys.parse_toBytes] at hparse
  exact (Option.some.inj hparse).symm

theorem metaPath_injective : Function.Injective (metaPath keys fgdsPath) := fun _ _ h =>
  dataPath_injective keys fgdsPath (List.append_cancel_right h)

/-- A name does not end in both suffixes. -/
theorem not_data_and_metadata {s : Str} (hd : dataFileSuffix <:+ s)
    (hm : metadataFileSuffix <:+ s) : False := by
  have hboth : metadataFileSuffix <:+ dataFileSuffix :=
    List.suffix_of_suffix_length_le hm hd (by decide)
  revert hboth
  decide

/-- The data path ends in the data suffix. -/
theorem dataPath_suffix : ∃ s, dataPath keys fgdsPath key = s ++ dataFileSuffix := by
  refine ⟨keyDir keys fgdsPath key ++ '/' :: quote (keys.toBytes key), ?_⟩
  rw [dataPath_eq, dataName]
  simp

theorem dataPath_ne_metaPath (k k' : Key) :
    dataPath keys fgdsPath k ≠ metaPath keys fgdsPath k' := by
  intro h
  obtain ⟨s, hs⟩ := dataPath_suffix keys fgdsPath k
  exact not_data_and_metadata ⟨s, hs.symm⟩ ⟨_, h.symm⟩

/-! ## Temporary names -/

theorem tmpPath_inj {p q : Str} {s t : TmpSuffix} (h : tmpPath p s = tmpPath q t) :
    p = q ∧ s.hex = t.hex := by
  have hlen : s.text.length = t.text.length := by
    rw [TmpSuffix.text, TmpSuffix.text, List.length_append, List.length_append, s.length, t.length]
  obtain ⟨hp, htext⟩ := List.append_inj' h hlen
  exact ⟨hp, List.append_cancel_left htext⟩

/-- A temporary name does not end in a word that is not made of hexadecimal digits. -/
theorem tmpPath_ne {p q w : Str} (s : TmpSuffix) (hw : w.length = 8)
    (hbad : ∃ c ∈ w, ¬ (c.isDigit ∨ 'a' ≤ c ∧ c ≤ 'f')) : tmpPath p s ≠ q ++ w := by
  intro h
  rw [tmpPath, TmpSuffix.text, ← List.append_assoc] at h
  obtain ⟨_, hhex⟩ := List.append_inj' h (by rw [s.length, hw])
  obtain ⟨c, hc, hno⟩ := hbad
  exact hno (s.digits c (hhex ▸ hc))

theorem tmpPath_ne_dataPath (p : Str) (s : TmpSuffix) :
    tmpPath p s ≠ dataPath keys fgdsPath key := by
  obtain ⟨q, hq⟩ := dataPath_suffix keys fgdsPath key
  have hsplit : dataFileSuffix = ".kvcache.saf".toList ++ "etensors".toList := by decide
  rw [hq, hsplit, ← List.append_assoc]
  exact tmpPath_ne s (by decide) ⟨'t', by decide, by decide⟩

theorem tmpPath_ne_metaPath (p : Str) (s : TmpSuffix) :
    tmpPath p s ≠ metaPath keys fgdsPath key := by
  have hsplit : metadataFileSuffix = ".".toList ++ "metadata".toList := by decide
  rw [metaPath, hsplit, ← List.append_assoc]
  exact tmpPath_ne s (by decide) ⟨'t', by decide, by decide⟩

end Paths

end Fgds.Backend
