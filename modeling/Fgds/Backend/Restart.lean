import Fgds.Backend.Metadata
import Fgds.Backend.Paths
import Fgds.Lib.Decimal
import Mathlib.Data.List.Dedup
import Mathlib.Logic.Denumerable
import Mathlib.Logic.Equiv.List

/-!
# What a restart finds

At start the backend scans its directory for metadata files. It visits directories whose name
has two characters, at both levels, and recovers each key from the name of a file. The writer
cuts the names of the directories from the decimal text of the hash, so that a hash of fewer than
four characters gives a directory that the scan leaves out.

* `mem_scanMetadata`: which files the scan gets to;
* `scan_restores_iff`: after a restart the index holds exactly the keys that were saved if and
  only if the hash of each has at least four characters;
* `scan_loses_short_hash`: a key with the hash 123.
-/

namespace Fgds.Backend

open Fgds.Lib Fgds.Lib.Percent

/-! ## The directory tree -/

/-- The part of a path behind a directory. -/
def below (dir path : Str) : Option Str :=
  if (dirSlash dir).isPrefixOf path then some (path.drop (dirSlash dir).length) else none

/-- `os.scandir` in a tree of files: the names of the entries, and the contents of those that
are files. -/
def scandir (files : List (Str × Bytes)) (dir : Str) : List (Str × Option Bytes) :=
  (files.filterMap fun f =>
    (below dir f.1).map fun rest =>
      (rest.takeWhile (· ≠ '/'), if '/' ∈ rest then none else some f.2)).dedup

/-! ## The scan -/

/-- `DiskCacheMetadata`, as far as the backend fills it in. -/
structure DiskCacheMetadata where
  path : Str
  size : Int
  shape : List Nat
  dtype : Dtype
  fmt : MemoryFormat
  deriving DecidableEq, Repr

/-- What happens to a file: it is left out (the name does not fit, or the metadata version is
not supported), entered into `hot_cache`, or its metadata cannot be read and the scan fails. -/
inductive Scanned (Key : Type) where
  | skipped
  | read (key : Key) (entry : DiskCacheMetadata)
  | raised
  deriving DecidableEq

/-- `str.removesuffix`. -/
def removeSuffix (s suffix : Str) : Str :=
  if suffix.isSuffixOf s then s.take (s.length - suffix.length) else s

/-- `target_suffix`. -/
def targetSuffix : Str := dataFileSuffix ++ metadataFileSuffix

section Scan

variable {Key : Type} (keys : CacheKeys Key) (json : Json)

/-- `_read_metadata` for a file with the given contents. -/
def readMetadata (key : Key) (filename : Str) (contents : Bytes) : Scanned Key :=
  match unpackMetadata json (contents.take metadataMaxSize) with
  | none => .raised
  | some info =>
    match info.metadata.get? "lmcache_version" with
    | none => .raised
    | some version =>
      if version ≠ metadataVersion then .skipped
      else .read key ⟨removeSuffix filename metadataFileSuffix, info.nbytes, info.shape, info.dtype,
        info.fmt⟩

/-- One file of `_scan_metadata_subdir`. -/
def scanFile (dir name : Str) (contents : Bytes) : Scanned Key :=
  if ¬ targetSuffix.isSuffixOf name then .skipped
  else
    match keys.parse (unquote (name.take (name.length - targetSuffix.length))) with
    | none => .skipped
    | some key => readMetadata json key (osPathJoin dir name) contents

/-- `_scan_metadata_subdir`. -/
def scanMetadataSubdir (files : List (Str × Bytes)) (path : Str) : List (Scanned Key) :=
  (scandir files path).flatMap fun e =>
    if e.2.isSome ∨ e.1.length ≠ 2 then []
    else
      (scandir files (osPathJoin path e.1)).filterMap fun f =>
        f.2.map (scanFile keys json (osPathJoin path e.1) f.1)

/-- `_scan_metadata`: all files that its threads get to. -/
def scanMetadata (files : List (Str × Bytes)) (fgdsPath : Str) : List (Scanned Key) :=
  (scandir files fgdsPath).flatMap fun e =>
    if e.2.isSome ∨ e.1.length ≠ 2 then []
    else scanMetadataSubdir keys json files (osPathJoin fgdsPath e.1)

end Scan

/-! ## The property -/

section Restart

variable {Key : Type} [DecidableEq Key]

/-- The entries that a scan makes in `hot_cache`. -/
def entered (scan : List (Scanned Key)) : List (Key × DiskCacheMetadata) :=
  scan.filterMap fun
    | .read key entry => some (key, entry)
    | _ => none

/-- `hot_cache` after entering these one after the other: the last one stays. -/
def hotCache (entries : List (Key × DiskCacheMetadata)) (key : Key) : Option DiskCacheMetadata :=
  (entries.reverse.find? fun e => e.1 = key).map Prod.snd

variable (keys : CacheKeys Key) {json : Json} (fgdsPath : Str)

/-- The files that a completed put leaves. -/
def putFiles (p : Put json Key) : List (Str × Bytes) :=
  [(dataPath keys fgdsPath p.key, p.image), (metaPath keys fgdsPath p.key, p.header)]

/-- The entry that stands for a put. -/
def putEntry (p : Put json Key) : DiskCacheMetadata :=
  ⟨dataPath keys fgdsPath p.key, p.tensor.data.length, p.tensor.shape, p.tensor.dtype, p.fmt⟩

/-- The scan of a directory with exactly these puts finishes; in whatever order its threads get
to the files, `hot_cache` then holds exactly the keys of the puts, each with its data path and
with what was saved; and distinct keys have distinct paths. -/
structure Restored (puts : List (Put json Key)) : Prop where
  finished : .raised ∉ scanMetadata keys json (puts.flatMap (putFiles keys fgdsPath)) fgdsPath
  found : ∀ entries,
    entries.Perm (entered (scanMetadata keys json (puts.flatMap (putFiles keys fgdsPath))
      fgdsPath)) →
    ∀ key, hotCache entries key =
      (puts.find? fun p => p.key = key).map (putEntry keys fgdsPath)
  distinct : Function.Injective (dataPath keys fgdsPath)

end Restart

/-! ## Listing a directory -/

section Scandir

variable {files : List (Str × Bytes)} {dir name : Str}

theorem below_eq_some {path rest : Str} :
    below dir path = some rest ↔ path = dirSlash dir ++ rest := by
  unfold below
  constructor
  · intro h
    split at h
    · rename_i hpre
      obtain ⟨t, rfl⟩ := List.isPrefixOf_iff_prefix.mp hpre
      rw [List.drop_left] at h
      cases h
      rfl
    · cases h
  · rintro rfl
    rw [if_pos (List.isPrefixOf_iff_prefix.mpr (List.prefix_append _ _)), List.drop_left]

theorem takeWhile_slash {n r : Str} (hn : '/' ∉ n) :
    (n ++ '/' :: r).takeWhile (· ≠ '/') = n := by
  rw [List.takeWhile_append_of_pos]
  · simp
  · intro c hc
    simp only [ne_eq, decide_not, Bool.not_eq_eq_eq_not, Bool.not_true, decide_eq_false_iff_not]
    rintro rfl
    exact hn hc

/-- A directory is listed if some file is below it. -/
theorem mem_scandir_dir (hname : '/' ∉ name) : (name, none) ∈ scandir files dir ↔
    ∃ rest c, (dirSlash dir ++ (name ++ '/' :: rest), c) ∈ files := by
  unfold scandir
  rw [List.mem_dedup, List.mem_filterMap]
  constructor
  · rintro ⟨⟨path, c⟩, hmem, hf⟩
    obtain ⟨rest, hbelow, heq⟩ := Option.map_eq_some_iff.mp hf
    rw [below_eq_some] at hbelow
    obtain ⟨hn, hslash⟩ := Prod.mk.inj heq
    split at hslash
    · rename_i hin
      obtain ⟨a, b, hab, ha⟩ : ∃ a b, rest = a ++ '/' :: b ∧ '/' ∉ a := by
        obtain ⟨a, b, hab, ha⟩ := List.eq_append_cons_of_mem hin
        exact ⟨a, b, hab, ha⟩
      rw [hab, takeWhile_slash ha] at hn
      refine ⟨b, c, ?_⟩
      rw [← hn, ← hab, ← hbelow]
      exact hmem
    · cases hslash
  · rintro ⟨rest, c, hmem⟩
    refine ⟨_, hmem, ?_⟩
    rw [below_eq_some.mpr rfl, Option.map_some, takeWhile_slash hname, if_pos (by simp)]

theorem mem_scandir_file {c : Bytes} : (name, some c) ∈ scandir files dir ↔
    '/' ∉ name ∧ (dirSlash dir ++ name, c) ∈ files := by
  unfold scandir
  rw [List.mem_dedup, List.mem_filterMap]
  have htake : ∀ {n : Str}, '/' ∉ n → n.takeWhile (· ≠ '/') = n := by
    intro n hn
    rw [List.takeWhile_eq_self_iff]
    intro c hc
    simp only [ne_eq, decide_not, Bool.not_eq_eq_eq_not, Bool.not_true, decide_eq_false_iff_not]
    rintro rfl
    exact hn hc
  constructor
  · rintro ⟨⟨path, c'⟩, hmem, hf⟩
    obtain ⟨rest, hbelow, heq⟩ := Option.map_eq_some_iff.mp hf
    rw [below_eq_some] at hbelow
    obtain ⟨hn, hslash⟩ := Prod.mk.inj heq
    split at hslash
    · cases hslash
    · rename_i hin
      cases hslash
      rw [htake hin] at hn
      rw [← hn, ← hbelow]
      exact ⟨hin, hmem⟩
  · rintro ⟨hname, hmem⟩
    refine ⟨_, hmem, ?_⟩
    rw [below_eq_some.mpr rfl, Option.map_some, htake hname, if_neg hname]

/-- The names that are listed have no separator. -/
theorem slash_not_mem_of_scandir {entry : Str × Option Bytes} (h : entry ∈ scandir files dir) :
    '/' ∉ entry.1 := by
  unfold scandir at h
  rw [List.mem_dedup, List.mem_filterMap] at h
  obtain ⟨f, _, hf⟩ := h
  obtain ⟨rest, _, rfl⟩ := Option.map_eq_some_iff.mp hf
  intro hin
  have hno := List.mem_takeWhile_imp hin
  simp at hno

end Scandir

/-! ## Which files the scan gets to -/

section Scan

variable {Key : Type} (keys : CacheKeys Key) (json : Json) {files : List (Str × Bytes)}

theorem ne_nil_of_length_two {s : Str} (h : s.length = 2) : s ≠ [] := by
  rintro rfl
  cases h

theorem dirSlash_osPathJoin (dir : Str) {s : Str} (hlen : s.length = 2) (hslash : '/' ∉ s) :
    dirSlash (osPathJoin dir s) = dirSlash dir ++ s ++ ['/'] := by
  rw [osPathJoin_eq _ hslash, dirSlash_append hslash (ne_nil_of_length_two hlen)]

theorem mem_scanMetadataSubdir {path : Str} {x : Scanned Key} :
    x ∈ scanMetadataSubdir keys json files path ↔
      ∃ l2 name c, l2.length = 2 ∧ '/' ∉ l2 ∧ '/' ∉ name ∧
        (dirSlash path ++ (l2 ++ '/' :: name), c) ∈ files ∧
        x = scanFile keys json (osPathJoin path l2) name c := by
  unfold scanMetadataSubdir
  rw [List.mem_flatMap]
  constructor
  · rintro ⟨⟨l2, kind⟩, hmem, hx⟩
    have hslash := slash_not_mem_of_scandir hmem
    split at hx
    · cases hx
    · rename_i hno
      obtain ⟨_, hlen⟩ := not_or.mp hno
      obtain ⟨⟨name, contents⟩, hfile, hmap⟩ := List.mem_filterMap.mp hx
      obtain ⟨c, rfl, hscan⟩ := Option.map_eq_some_iff.mp hmap
      obtain ⟨hname, hin⟩ := mem_scandir_file.mp hfile
      rw [dirSlash_osPathJoin _ (not_not.mp hlen) hslash] at hin
      refine ⟨l2, name, c, not_not.mp hlen, hslash, hname, ?_, hscan.symm⟩
      simpa using hin
  · rintro ⟨l2, name, c, hlen, hslash, hname, hin, rfl⟩
    refine ⟨(l2, none), (mem_scandir_dir hslash).mpr ⟨name, c, hin⟩, ?_⟩
    rw [if_neg (by simp [hlen])]
    refine List.mem_filterMap.mpr ⟨(name, some c), mem_scandir_file.mpr ⟨hname, ?_⟩, rfl⟩
    rw [dirSlash_osPathJoin _ hlen hslash]
    simpa using hin

theorem mem_scanMetadata {fgdsPath : Str} {x : Scanned Key} :
    x ∈ scanMetadata keys json files fgdsPath ↔
      ∃ l1 l2 name c, (l1.length = 2 ∧ '/' ∉ l1) ∧ (l2.length = 2 ∧ '/' ∉ l2) ∧ '/' ∉ name ∧
        (dirSlash fgdsPath ++ l1 ++ '/' :: (l2 ++ '/' :: name), c) ∈ files ∧
        x = scanFile keys json (osPathJoin (osPathJoin fgdsPath l1) l2) name c := by
  unfold scanMetadata
  rw [List.mem_flatMap]
  constructor
  · rintro ⟨⟨l1, kind⟩, hmem, hx⟩
    have hslash := slash_not_mem_of_scandir hmem
    split at hx
    · cases hx
    · rename_i hno
      obtain ⟨_, hlen⟩ := not_or.mp hno
      obtain ⟨l2, name, c, hlen2, hslash2, hname, hin, hscan⟩ :=
        (mem_scanMetadataSubdir keys json).mp hx
      rw [dirSlash_osPathJoin _ (not_not.mp hlen) hslash] at hin
      refine ⟨l1, l2, name, c, ⟨not_not.mp hlen, hslash⟩, ⟨hlen2, hslash2⟩, hname, ?_, hscan⟩
      simpa using hin
  · rintro ⟨l1, l2, name, c, ⟨hlen, hslash⟩, ⟨hlen2, hslash2⟩, hname, hin, hx⟩
    refine ⟨(l1, none), (mem_scandir_dir hslash).mpr ⟨l2 ++ '/' :: name, c, ?_⟩, ?_⟩
    · simpa using hin
    · rw [if_neg (by simp [hlen])]
      refine (mem_scanMetadataSubdir keys json).mpr ⟨l2, name, c, hlen2, hslash2, hname, ?_, hx⟩
      rw [dirSlash_osPathJoin _ hlen hslash]
      simpa using hin

variable (fgdsPath : Str)

/-- The directory of a key is one that the scan visits if and only if the hash has at least four
characters. -/
theorem keyDir_scanned (key : Key) {l1 l2 : Str} (h1 : l1.length = 2 ∧ '/' ∉ l1)
    (h2 : l2.length = 2 ∧ '/' ∉ l2) :
    dirSlash fgdsPath ++ l1 ++ '/' :: l2 = keyDir keys fgdsPath key ↔
      4 ≤ (hashStr keys key).length ∧ l1 = l1Dir keys key ∧ l2 = l2Dir keys key := by
  unfold keyDir
  constructor
  · intro h
    rw [List.append_assoc, List.append_assoc] at h
    have htail := List.append_cancel_left h
    split at htail
    · rw [List.append_nil] at htail
      exact absurd (htail ▸ slash_not_mem_l1Dir keys key) (by simp)
    · obtain ⟨rfl, rfl⟩ := slash_append_inj h1.2 (slash_not_mem_l1Dir keys key) htail
      refine ⟨?_, rfl, rfl⟩
      have hlen := h2.1
      rw [l2Dir, List.length_take, List.length_drop] at hlen
      omega
  · rintro ⟨_, rfl, rfl⟩
    rw [if_neg (ne_nil_of_length_two h2.1)]

theorem length_dirs {key : Key} (h : 4 ≤ (hashStr keys key).length) :
    (l1Dir keys key).length = 2 ∧ (l2Dir keys key).length = 2 := by
  rw [l1Dir, l2Dir, List.length_take, List.length_take, List.length_drop]
  omega

/-! ## The files of a put -/

variable {json}

/-- A data file is left out. -/
theorem scanFile_data (dir : Str) (key : Key) (c : Bytes) :
    scanFile keys json dir (dataName keys key) c = .skipped := by
  unfold scanFile
  rw [if_pos]
  intro h
  have hmeta : metadataFileSuffix <:+ dataName keys key :=
    (List.suffix_append _ _).trans (List.isSuffixOf_iff_suffix.mp h)
  exact not_data_and_metadata (List.suffix_append _ _) hmeta

theorem take_append_suffix (s suffix : Str) :
    (s ++ suffix).take ((s ++ suffix).length - suffix.length) = s := by
  rw [List.length_append, Nat.add_sub_cancel, List.take_left]

/-- The metadata file of a put is read, and its entry says what was saved. -/
theorem readMetadata_header (p : Put json Key) :
    readMetadata json p.key (metaPath keys fgdsPath p.key) p.header =
      .read p.key (putEntry keys fgdsPath p) := by
  have hlen := packMetadata_length p.packed
  have hsuffix : removeSuffix (metaPath keys fgdsPath p.key) metadataFileSuffix =
      dataPath keys fgdsPath p.key := by
    rw [removeSuffix, metaPath, if_pos (List.isSuffixOf_iff_suffix.mpr (List.suffix_append _ _)),
      take_append_suffix]
  have hversion : versionMetadata.get? "lmcache_version" = some metadataVersion := by decide
  unfold readMetadata
  rw [List.take_of_length_le (Nat.le_of_eq hlen), unpackMetadata_packMetadata p.packed]
  simp only [Tensor.info, hversion, ne_eq, not_true_eq_false, ↓reduceIte, hsuffix]
  rfl

theorem scanFile_metadata {dir : Str} (p : Put json Key)
    (hdir : osPathJoin dir (dataName keys p.key ++ metadataFileSuffix) =
      metaPath keys fgdsPath p.key) :
    scanFile keys json dir (dataName keys p.key ++ metadataFileSuffix) p.header =
      .read p.key (putEntry keys fgdsPath p) := by
  have hname : dataName keys p.key ++ metadataFileSuffix =
      quote (keys.toBytes p.key) ++ targetSuffix := by
    rw [dataName, targetSuffix, List.append_assoc]
  unfold scanFile
  rw [hdir, hname, if_neg (not_not.mpr (List.isSuffixOf_iff_suffix.mpr (List.suffix_append _ _))),
    take_append_suffix, unquote_quote, keys.parse_toBytes]
  exact readMetadata_header keys fgdsPath p

theorem slash_not_mem_metaName (key : Key) : '/' ∉ dataName keys key ++ metadataFileSuffix := by
  intro h
  rcases List.mem_append.mp h with h | h
  · exact slash_not_mem_dataName keys key h
  · revert h
    decide

theorem metaPath_eq (key : Key) : metaPath keys fgdsPath key =
    keyDir keys fgdsPath key ++ '/' :: (dataName keys key ++ metadataFileSuffix) := by
  rw [metaPath, dataPath_eq]
  simp

/-- The path of the metadata file as the scan forms it. -/
theorem osPathJoin_metaName (key : Key) :
    osPathJoin (osPathJoin (osPathJoin fgdsPath (l1Dir keys key)) (l2Dir keys key))
      (dataName keys key ++ metadataFileSuffix) = metaPath keys fgdsPath key := by
  rw [osPathJoin_eq _ (slash_not_mem_metaName keys key), metaPath, dataPath, keyToPath,
    osPathJoin_eq _ (slash_not_mem_dataName keys key), List.append_assoc]

variable {puts : List (Put json Key)}

theorem mem_putFiles {path : Str} {c : Bytes} :
    (path, c) ∈ puts.flatMap (putFiles keys fgdsPath) ↔
      ∃ p ∈ puts, (path = dataPath keys fgdsPath p.key ∧ c = p.image) ∨
        (path = metaPath keys fgdsPath p.key ∧ c = p.header) := by
  simp only [List.mem_flatMap, putFiles, List.mem_cons, List.not_mem_nil, or_false, Prod.mk.injEq]

/-- What the scan of a directory with exactly these puts does. -/
theorem mem_scan_puts {x : Scanned Key} (hx : x ≠ .skipped) :
    x ∈ scanMetadata keys json (puts.flatMap (putFiles keys fgdsPath)) fgdsPath ↔
      ∃ p ∈ puts, 4 ≤ (hashStr keys p.key).length ∧ x = .read p.key (putEntry keys fgdsPath p) := by
  rw [mem_scanMetadata]
  constructor
  · rintro ⟨l1, l2, name, c, h1, h2, hname, hin, rfl⟩
    obtain ⟨p, hp, hfile⟩ := (mem_putFiles keys fgdsPath).mp hin
    rw [show dirSlash fgdsPath ++ l1 ++ '/' :: (l2 ++ '/' :: name) =
      dirSlash fgdsPath ++ l1 ++ '/' :: l2 ++ '/' :: name by simp] at hfile
    rcases hfile with ⟨hpath, _⟩ | ⟨hpath, rfl⟩
    · -- the data file has the wrong suffix
      rw [dataPath_eq] at hpath
      obtain ⟨_, rfl⟩ := append_slash_inj hname (slash_not_mem_dataName keys p.key) hpath
      exact absurd (scanFile_data keys _ p.key c) hx
    · rw [metaPath_eq] at hpath
      obtain ⟨hdir, rfl⟩ := append_slash_inj hname (slash_not_mem_metaName keys p.key) hpath
      obtain ⟨hlen, rfl, rfl⟩ := (keyDir_scanned keys fgdsPath p.key h1 h2).mp hdir
      refine ⟨p, hp, hlen, scanFile_metadata keys fgdsPath p ?_⟩
      exact osPathJoin_metaName keys fgdsPath p.key
  · rintro ⟨p, hp, hlen, rfl⟩
    obtain ⟨hlen1, hlen2⟩ := length_dirs keys hlen
    have h1 := And.intro hlen1 (slash_not_mem_l1Dir keys p.key)
    have h2 := And.intro hlen2 (slash_not_mem_l2Dir keys p.key)
    refine ⟨_, _, dataName keys p.key ++ metadataFileSuffix, p.header, h1, h2,
      slash_not_mem_metaName keys p.key, (mem_putFiles keys fgdsPath).mpr ⟨p, hp, Or.inr ⟨?_, rfl⟩⟩,
      (scanFile_metadata keys fgdsPath p (osPathJoin_metaName keys fgdsPath p.key)).symm⟩
    have hdir := (keyDir_scanned keys fgdsPath p.key h1 h2).mpr ⟨hlen, rfl, rfl⟩
    rw [metaPath_eq, ← hdir]
    simp

end Scan

/-! ## The index after the scan -/

section Restored

variable {Key : Type}

theorem mem_entered {scan : List (Scanned Key)} {key : Key} {entry : DiskCacheMetadata} :
    (key, entry) ∈ entered scan ↔ .read key entry ∈ scan := by
  unfold entered
  rw [List.mem_filterMap]
  constructor
  · rintro ⟨x, hx, heq⟩
    cases x with
    | skipped => cases heq
    | read k e =>
      cases heq
      exact hx
    | raised => cases heq
  · intro h
    exact ⟨_, h, rfl⟩

variable [DecidableEq Key]

theorem mem_of_hotCache {entries : List (Key × DiskCacheMetadata)} {key : Key}
    {entry : DiskCacheMetadata} (h : hotCache entries key = some entry) :
    (key, entry) ∈ entries := by
  obtain ⟨⟨k, e⟩, hfind, rfl⟩ := Option.map_eq_some_iff.mp h
  have hk : k = key := by simpa using List.find?_some hfind
  subst hk
  exact List.mem_reverse.mp (List.mem_of_find?_eq_some hfind)

/-- If each key is only entered with one value, the order does not matter. -/
theorem hotCache_eq_some {entries : List (Key × DiskCacheMetadata)} {key : Key}
    (hfun : ∀ e e', (key, e) ∈ entries → (key, e') ∈ entries → e = e') {entry : DiskCacheMetadata} :
    hotCache entries key = some entry ↔ (key, entry) ∈ entries := by
  refine ⟨mem_of_hotCache, fun h => ?_⟩
  cases hsome : hotCache entries key with
  | none =>
    rw [hotCache, Option.map_eq_none_iff] at hsome
    have hno := List.find?_eq_none.mp hsome (key, entry) (List.mem_reverse.mpr h)
    simp at hno
  | some e => rw [hfun e entry (mem_of_hotCache hsome) h]

variable (keys : CacheKeys Key) {json : Json} (fgdsPath : Str)

/-- **Restart.** For any set of completed puts, given by its keys: a new backend on the same
directory finds exactly these, with the paths and the metadata that were saved, if and only if
the decimal text of every hash has at least four characters. -/
theorem scan_restores_iff {puts : List (Put json Key)} (hkeys : (puts.map Put.key).Nodup) :
    Restored keys fgdsPath puts ↔ ∀ p ∈ puts, 4 ≤ (hashStr keys p.key).length := by
  have hread : ∀ {key : Key} {entry : DiskCacheMetadata}, (key, entry) ∈
      entered (scanMetadata keys json (puts.flatMap (putFiles keys fgdsPath)) fgdsPath) ↔
      ∃ p ∈ puts, 4 ≤ (hashStr keys p.key).length ∧ key = p.key ∧
        entry = putEntry keys fgdsPath p := by
    intro key entry
    rw [mem_entered, mem_scan_puts keys fgdsPath (by simp)]
    simp only [Scanned.read.injEq]
  have hsame : ∀ {p q : Put json Key}, p ∈ puts → q ∈ puts → p.key = q.key → p = q :=
    fun hp hq => List.inj_on_of_nodup_map hkeys hp hq
  have hfun : ∀ key e e', (key, e) ∈
      entered (scanMetadata keys json (puts.flatMap (putFiles keys fgdsPath)) fgdsPath) →
      (key, e') ∈
      entered (scanMetadata keys json (puts.flatMap (putFiles keys fgdsPath)) fgdsPath) →
      e = e' := by
    intro key e e' h h'
    obtain ⟨p, hp, _, hkey, rfl⟩ := hread.mp h
    obtain ⟨q, hq, _, hkey', rfl⟩ := hread.mp h'
    rw [hsame hp hq (hkey.symm.trans hkey')]
  constructor
  · intro hres p hp
    have hsome : (puts.find? fun q => q.key = p.key).isSome := by
      rw [List.find?_isSome]
      exact ⟨p, hp, by simp⟩
    obtain ⟨q, hq⟩ := Option.isSome_iff_exists.mp hsome
    have hhot := hres.found _ (List.Perm.refl _) p.key
    rw [hq, Option.map_some] at hhot
    obtain ⟨r, _, hlen, hkey, _⟩ := hread.mp (mem_of_hotCache hhot)
    rwa [hkey]
  · intro hlen
    refine ⟨fun hraised => ?_, fun entries hperm key => ?_, dataPath_injective keys fgdsPath⟩
    · obtain ⟨_, _, _, heq⟩ := (mem_scan_puts keys fgdsPath (by simp)).mp hraised
      cases heq
    · have hfun' : ∀ e e', (key, e) ∈ entries → (key, e') ∈ entries → e = e' := fun e e' h h' =>
        hfun key e e' (hperm.mem_iff.mp h) (hperm.mem_iff.mp h')
      cases hfind : puts.find? fun p => p.key = key with
      | none =>
        rw [Option.map_none, Option.eq_none_iff_forall_ne_some]
        intro e he
        rw [hotCache_eq_some hfun', hperm.mem_iff, hread] at he
        obtain ⟨p, hp, _, rfl, _⟩ := he
        have hno := List.find?_eq_none.mp hfind p hp
        simp at hno
      | some p =>
        have hp := List.mem_of_find?_eq_some hfind
        have hkey : p.key = key := by simpa using List.find?_some hfind
        rw [Option.map_some, hotCache_eq_some hfun', hperm.mem_iff, hread]
        exact ⟨p, hp, hlen p hp, hkey.symm, rfl⟩

end Restored

/-! ## An example -/

/-- Keys that are just a hash, in decimal. -/
def intKeys : CacheKeys Int where
  chunkHash := id
  toBytes
    | .ofNat n => Decimal.text n
    | .negSucc n => 45 :: Decimal.text (n + 1)
  parse
    | 45 :: digits => some (-Decimal.value digits)
    | digits => some (Decimal.value digits)
  parse_toBytes k := by
    cases k with
    | ofNat n =>
      have hminus : ∀ digits, Decimal.text n ≠ 45 :: digits := fun digits h => by
        have hdigit : Decimal.IsDigit 45 := Decimal.text_digit (n := n) (h ▸ List.mem_cons_self)
        exact absurd hdigit (by decide)
      dsimp only
      split
      · rename_i digits h
        exact absurd h (hminus digits)
      · rw [Decimal.value_text]
        rfl
    | negSucc n =>
      show some (-(Decimal.value (Decimal.text (n + 1)) : Int)) = _
      rw [Decimal.value_text]
      rfl

/-- The characters of a string by their numbers, and back. -/
def charNumbers (s : String) : List Nat := s.toList.map Char.toNat

def ofCharNumbers (l : List Nat) : String := String.ofList (l.map Char.ofNat)

theorem ofCharNumbers_charNumbers (s : String) : ofCharNumbers (charNumbers s) = s := by
  simp [ofCharNumbers, charNumbers, Function.comp_def]

def extraOfList (l : List (String × String)) : ExtraMetadata :=
  if h : (l.map Prod.fst).Nodup then ⟨l, h⟩ else ⟨[], List.nodup_nil⟩

instance : Encodable ExtraMetadata :=
  Encodable.ofLeftInverse
    (fun extra : ExtraMetadata => extra.entries.map fun e => (charNumbers e.1, charNumbers e.2))
    (fun l => extraOfList (l.map fun e => (ofCharNumbers e.1, ofCharNumbers e.2)))
    fun extra => by
      simp [extraOfList, Function.comp_def, ofCharNumbers_charNumbers, extra.distinct]

instance : Encodable TensorMeta :=
  Encodable.ofLeftInverse
    (fun m : TensorMeta => (charNumbers m.dtype, m.shape, m.dataOffsets, m.fmt, m.metadata))
    (fun x => ⟨ofCharNumbers x.1, x.2.1, x.2.2.1, x.2.2.2.1, x.2.2.2.2⟩)
    fun m => by simp [ofCharNumbers_charNumbers]

/-- A `json` whose text for one dictionary is given. -/
def textJson (usual : TensorMeta) (text : Bytes) (htext : text.getLast? = some 0x7d)
    (hfirst : text.head? = some 0x7b) : Json where
  dumps m := if m = usual then text else List.replicate (Encodable.encode m + 1) 0x7d
  loads bs := if bs = text then some usual else Encodable.decode (bs.length - 1)
  loads_dumps m := by
    by_cases hm : m = usual
    · rw [if_pos hm, if_pos rfl, hm]
    · have hother : List.replicate (Encodable.encode m + 1) 0x7d ≠ text := by
        rintro rfl
        cases hfirst
      rw [if_neg hm, if_neg hother, List.length_replicate, Nat.add_sub_cancel, Encodable.encodek]
  dumps_last m := by
    by_cases hm : m = usual
    · rw [if_pos hm, htext]
      decide
    · rw [if_neg hm, List.getLast?_replicate, if_neg (Nat.succ_ne_zero _)]
      decide

theorem textJson_dumps (usual : TensorMeta) {text : Bytes} (htext : text.getLast? = some 0x7d)
    (hfirst : text.head? = some 0x7b) : (textJson usual text htext hfirst).dumps usual = text :=
  if_pos rfl

def twoBytes : Tensor := ⟨.uint8, [2], [1, 2], rfl⟩

/-- What `json.dumps` gives for it. -/
def sampleText : Bytes :=
  ("\x7b\"kvcache\": \x7b\"dtype\": \"U8\", \"shape\": [2], \"data_offsets\": [0, 2], " ++
    "\"fmt\": 1, \"__metadata__\": \x7b\"lmcache_version\": \"1\"\x7d\x7d\x7d").toList.map
    fun c => UInt8.ofNat c.toNat

theorem sampleText_last : sampleText.getLast? = some 0x7d := by decide +kernel

theorem sampleText_first : sampleText.head? = some 0x7b := by decide +kernel

def sampleJson : Json :=
  textJson (tensorMeta twoBytes "U8" 1 versionMetadata) sampleText sampleText_last sampleText_first

theorem sample_packed : (packMetadata sampleJson twoBytes 1 versionMetadata).isSome := by
  decide +kernel

def samplePut (hash : Int) : Put sampleJson Int where
  key := hash
  tensor := twoBytes
  fmt := 1
  header := (packMetadata sampleJson twoBytes 1 versionMetadata).get sample_packed
  packed := (Option.some_get _).symm

/-- Keys with the hashes 1234 and -123 are found again. -/
theorem scan_restores_long : Restored intKeys "/kv".toList [samplePut 1234, samplePut (-123)] := by
  refine (scan_restores_iff intKeys _ ?_).mpr ?_
  · decide
  · decide

/-- A key with the hash 123 is not. -/
theorem scan_loses_short_hash : ¬ Restored intKeys "/kv".toList [samplePut 123] := by
  intro h
  have hhot := h.found _ (List.Perm.refl _) 123
  have hfirst : [samplePut 123].find? (fun p => p.key = 123) = some (samplePut 123) := by
    rw [List.find?_cons_of_pos (by decide)]
  rw [hfirst, Option.map_some] at hhot
  have hread := mem_entered.mp (mem_of_hotCache hhot)
  obtain ⟨p, hp, hlen, _⟩ := (mem_scan_puts intKeys _ (by simp)).mp hread
  rw [List.mem_singleton.mp hp] at hlen
  revert hlen
  decide

end Fgds.Backend
