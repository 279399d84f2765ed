import Fgds.Backend.Index

/-!
# Asking for a key

`contains` answers from `hot_cache`, or else from what `_try_to_read_metadata` returns. That
function returns what `_read_metadata` returns; but `_read_metadata` enters the key into
`hot_cache` and has no return statement. So the first probe of a key that is on the disk answers
no, and the second one yes.

* `contains_effect`: what a probe does to `hot_cache`;
* `contains_steps`: a probe is made of the steps that `Index` takes for it;
* `contains_right_iff`: the answer is right, and asking does not change it, if and only if the key
  is in `hot_cache` or has no readable metadata;
* `contains_denies`: a key whose metadata is on the disk.
-/

namespace Fgds.Backend

/-! ## Files -/

/-- The exceptions of `os.open` and `os.read`. -/
inductive ReadError where
  | fileNotFound
  | permission
  | os
  deriving DecidableEq, Repr

/-- What the operating system answers for a path: whether it exists, whether it can be opened
with `O_NOATIME`, and the bytes that are read. -/
structure FileState where
  present : Bool
  noatime : Bool
  read : Except ReadError Bytes

/-- The exceptions that `_try_to_read_metadata` catches. -/
inductive Failure where
  | fileNotFound
  | permission
  | unsupportedVersion
  | os
  | other
  deriving DecidableEq, Repr

def ReadError.failure : ReadError → Failure
  | .fileNotFound => .fileNotFound
  | .permission => .permission
  | .os => .os

/-! ## The backend -/

/-- The part of the backend that a probe uses. -/
structure Store (Key : Type) where
  hotCache : Key → Option DiskCacheMetadata
  metadataDirs : List Str
  useNoatime : Bool

section Contains

variable {Key : Type} [DecidableEq Key] (keys : CacheKeys Key) (json : Json) (fgdsPath : Str)
variable (dir : Str → FileState)

namespace Store

/-- `_read_metadata_info` up to the call of `unpack_metadata`: if the file cannot be opened with
`O_NOATIME`, the flag is given up for good. -/
def readMetadataInfo (s : Store Key) (filename : Str) : Except ReadError Bytes × Store Key :=
  ((dir filename).read, { s with useNoatime := s.useNoatime && (dir filename).noatime })

/-- `_read_metadata`: the key is entered; there is no return value. -/
def readMetadata (s : Store Key) (key : Key) (filename subdirKey : Str) :
    Except Failure (Option DiskCacheMetadata) × Store Key :=
  match s.readMetadataInfo dir filename with
  | (.error e, s) => (.error e.failure, s)
  | (.ok contents, s) =>
    match Backend.readMetadata json key filename contents with
    | .raised => (.error .other, s)
    | .skipped => (.error .unsupportedVersion, s)
    | .read key entry =>
      (.ok none, { s with
        metadataDirs := if subdirKey ∈ s.metadataDirs then s.metadataDirs
          else subdirKey :: s.metadataDirs
        hotCache := Function.update s.hotCache key (some entry) })

/-- `_try_to_read_metadata`: every exception is logged. -/
def tryToReadMetadata (s : Store Key) (key : Key) : Option DiskCacheMetadata × Store Key :=
  let path := metaPath keys fgdsPath key
  if (dir path).present then
    match s.readMetadata json dir key path (keyToPath keys fgdsPath key).subdirKey with
    | (.ok result, s) => (result, s)
    | (.error _, s) => (none, s)
  else (none, s)

def contains (s : Store Key) (key : Key) : Bool × Store Key :=
  if (s.hotCache key).isSome then (true, s)
  else
    let result := s.tryToReadMetadata keys json fgdsPath dir key
    (result.1.isSome, result.2)

/-- `get_blocking`: what it starts to load. -/
def getBlocking (s : Store Key) (key : Key) : Option (Str × Dtype × List Nat × MemoryFormat) :=
  (s.hotCache key).map fun entry => (entry.path, entry.dtype, entry.shape, entry.fmt)

end Store

/-- A readable metadata file of the supported version at the path of the key. -/
def Readable (key : Key) (entry : DiskCacheMetadata) : Prop :=
  (dir (metaPath keys fgdsPath key)).present = true ∧
    ∃ contents, (dir (metaPath keys fgdsPath key)).read = .ok contents ∧
      readMetadata json key (metaPath keys fgdsPath key) contents = .read key entry

/-- The answer is what the store holds, the entry is there after a positive answer, and asking
again gives the same answer. -/
structure ContainsRight (s : Store Key) (key : Key) : Prop where
  answer : (s.contains keys json fgdsPath dir key).1 = true ↔
    (s.hotCache key).isSome ∨ ∃ entry, Readable keys json fgdsPath dir key entry
  found : (s.contains keys json fgdsPath dir key).1 = true →
    ((s.contains keys json fgdsPath dir key).2.getBlocking key).isSome
  stable : ((s.contains keys json fgdsPath dir key).2.contains keys json fgdsPath dir key).1 =
    (s.contains keys json fgdsPath dir key).1

end Contains

/-! ## What a probe does -/

section Effect

variable {Key : Type} {keys : CacheKeys Key} {json : Json} {fgdsPath : Str}
variable {dir : Str → FileState} {s : Store Key} {key : Key}

/-- The entry is made for the key that was asked for. -/
theorem readMetadata_key {k : Key} {filename : Str} {contents : Bytes}
    {entry : DiskCacheMetadata}
    (h : readMetadata json key filename contents = .read k entry) : k = key := by
  unfold readMetadata at h
  split at h
  · cases h
  · split at h
    · cases h
    · split at h
      · cases h
      · cases h
        rfl

variable [DecidableEq Key]

/-- The slow path never returns an entry, and enters the key if its metadata is readable. -/
theorem tryToReadMetadata_effect (keys : CacheKeys Key) (json : Json) (fgdsPath : Str)
    (dir : Str → FileState) (s : Store Key) (key : Key) :
    (s.tryToReadMetadata keys json fgdsPath dir key).1 = none ∧
      (((∀ entry, ¬ Readable keys json fgdsPath dir key entry) ∧
        (s.tryToReadMetadata keys json fgdsPath dir key).2.hotCache = s.hotCache) ∨
      ∃ entry, Readable keys json fgdsPath dir key entry ∧
        (s.tryToReadMetadata keys json fgdsPath dir key).2.hotCache =
          Function.update s.hotCache key (some entry)) := by
  unfold Store.tryToReadMetadata
  by_cases hpresent : (dir (metaPath keys fgdsPath key)).present = true
  · simp only [if_pos hpresent, Store.readMetadata, Store.readMetadataInfo]
    cases hread : (dir (metaPath keys fgdsPath key)).read with
    | error e =>
      refine ⟨rfl, .inl ⟨?_, rfl⟩⟩
      rintro entry ⟨_, c, hc, _⟩
      rw [hread] at hc
      cases hc
    | ok c =>
      have honly : ∀ {entry}, Readable keys json fgdsPath dir key entry →
          readMetadata json key (metaPath keys fgdsPath key) c = .read key entry := by
        rintro entry ⟨_, c', hc', hentry⟩
        rw [hread] at hc'
        cases hc'
        exact hentry
      cases hscan : readMetadata json key (metaPath keys fgdsPath key) c with
      | raised =>
        refine ⟨by simp only [hscan], .inl ⟨fun entry h => ?_, by simp only [hscan]⟩⟩
        cases hscan.symm.trans (honly h)
      | skipped =>
        refine ⟨by simp only [hscan], .inl ⟨fun entry h => ?_, by simp only [hscan]⟩⟩
        cases hscan.symm.trans (honly h)
      | read k entry =>
        obtain rfl := readMetadata_key hscan
        exact ⟨by simp only [hscan], .inr ⟨entry, ⟨hpresent, c, hread, hscan⟩,
          by simp only [hscan]⟩⟩
  · rw [if_neg hpresent]
    exact ⟨rfl, .inl ⟨fun entry h => hpresent h.1, rfl⟩⟩

/-- Only what is in `hot_cache` already gets a positive answer. -/
theorem contains_answer (keys : CacheKeys Key) (json : Json) (fgdsPath : Str)
    (dir : Str → FileState) (s : Store Key) (key : Key) :
    (s.contains keys json fgdsPath dir key).1 = (s.hotCache key).isSome := by
  unfold Store.contains
  by_cases hhot : (s.hotCache key).isSome = true
  · rw [if_pos hhot, hhot]
  · rw [if_neg hhot]
    have hnone := (tryToReadMetadata_effect keys json fgdsPath dir s key).1
    simp only [hnone, Option.isSome_none]
    simpa using hhot

/-- A probe of a key that is not in `hot_cache` enters it if its metadata is readable. -/
theorem contains_effect (keys : CacheKeys Key) (json : Json) (fgdsPath : Str)
    (dir : Str → FileState) (s : Store Key) (key : Key) :
    (((s.hotCache key).isSome ∨ ∀ entry, ¬ Readable keys json fgdsPath dir key entry) ∧
      (s.contains keys json fgdsPath dir key).2.hotCache = s.hotCache) ∨
    ∃ entry, s.hotCache key = none ∧ Readable keys json fgdsPath dir key entry ∧
      (s.contains keys json fgdsPath dir key).2.hotCache =
        Function.update s.hotCache key (some entry) := by
  unfold Store.contains
  by_cases hhot : (s.hotCache key).isSome = true
  · rw [if_pos hhot]
    exact .inl ⟨.inl hhot, rfl⟩
  · rw [if_neg hhot]
    rcases (tryToReadMetadata_effect keys json fgdsPath dir s key).2 with
      ⟨hno, hsame⟩ | ⟨entry, hentry, hupdate⟩
    · exact .inl ⟨.inr hno, hsame⟩
    · exact .inr ⟨entry, Option.not_isSome_iff_eq_none.mp hhot, hentry, hupdate⟩

/-! ## The probe as steps of the index -/

/-- A directory in which every file can be read. -/
def plainDirectory (fs : Str → Option Bytes) (path : Str) : FileState :=
  match fs path with
  | none => ⟨false, true, .error .fileNotFound⟩
  | some c => ⟨true, true, .ok c⟩

theorem plainDirectory_ok {fs : Str → Option Bytes} {path : Str} {c : Bytes} :
    (plainDirectory fs path).read = .ok c ↔ fs path = some c := by
  unfold plainDirectory
  cases fs path with
  | none => simp
  | some c' => simp

/-- What a probe does to the index are a reading step and an entering step, or none. -/
theorem contains_steps (keys : CacheKeys Key) (fgdsPath : Str) (st : State json Key)
    (h : s.hotCache = st.hot) (key : Key) :
    ∃ actions : List (Action json Key),
      (∀ a ∈ actions, a = .readMeta key ∨ ∃ e, a = .enter key e) ∧
      (s.contains keys json fgdsPath (plainDirectory st.fs) key).2.hotCache =
        (actions.foldl (State.step keys fgdsPath) st).hot := by
  rcases contains_effect keys json fgdsPath (plainDirectory st.fs) s key with
    ⟨_, hsame⟩ | ⟨entry, _, ⟨_, c, hc, hread⟩, hupdate⟩
  · exact ⟨[], by simp, hsame.trans h⟩
  · refine ⟨[.readMeta key, .enter key entry], by simp, ?_⟩
    have hstep : State.step keys fgdsPath st (.readMeta key) =
        { st with reads := (key, entry) :: st.reads } := by
      simp only [State.step, plainDirectory_ok.mp hc, hread]
    rw [List.foldl_cons, hstep, List.foldl_cons, List.foldl_nil, hupdate, h]
    simp only [State.step, List.mem_cons, true_or, ↓reduceIte]
    rfl

/-! ## The answer -/

/-- **Probing.** For every state of the backend, every directory and every key: `contains` answers
what the store holds, its positive answers can be used, and asking again gives the same answer, if
and only if the key is in `hot_cache` or has no readable metadata file. -/
theorem contains_right_iff (keys : CacheKeys Key) (json : Json) (fgdsPath : Str)
    (dir : Str → FileState) (s : Store Key) (key : Key) :
    ContainsRight keys json fgdsPath dir s key ↔
      (s.hotCache key).isSome ∨ ∀ entry, ¬ Readable keys json fgdsPath dir key entry := by
  have hanswer := contains_answer keys json fgdsPath dir s key
  constructor
  · intro h
    by_contra hno
    obtain ⟨hhot, hreadable⟩ := not_or.mp hno
    simp only [not_forall, not_not] at hreadable
    exact hhot (hanswer ▸ h.answer.mpr (.inr hreadable))
  · intro h
    have hcache : (s.contains keys json fgdsPath dir key).2.hotCache = s.hotCache := by
      rcases contains_effect keys json fgdsPath dir s key with
        ⟨_, hsame⟩ | ⟨entry, hnone, hentry, _⟩
      · exact hsame
      · rcases h with hhot | hno
        · rw [hnone] at hhot
          cases hhot
        · exact absurd hentry (hno entry)
    refine ⟨?_, fun hyes => ?_, ?_⟩
    · rw [hanswer]
      constructor
      · exact .inl
      · rintro (hhot | ⟨entry, hentry⟩)
        · exact hhot
        · rcases h with hhot | hno
          · exact hhot
          · exact absurd hentry (hno entry)
    · rw [Store.getBlocking, hcache, Option.isSome_map, ← hanswer]
      exact hyes
    · rw [contains_answer, hcache, hanswer]

end Effect

/-! ## An example -/

/-- A directory with the metadata file of a put. -/
def sampleFiles (path : Str) : FileState :=
  if path = metaPath intKeys "/kv".toList 1234 then ⟨true, true, .ok (samplePut 1234).header⟩
  else ⟨false, true, .error .fileNotFound⟩

def emptyStore : Store Int := ⟨fun _ => none, [], true⟩

theorem sampleFiles_readable : Readable intKeys sampleJson "/kv".toList sampleFiles 1234
    (putEntry intKeys "/kv".toList (samplePut 1234)) := by
  refine ⟨by rw [sampleFiles, if_pos rfl], (samplePut 1234).header, by rw [sampleFiles, if_pos rfl],
    ?_⟩
  exact readMetadata_header intKeys "/kv".toList (samplePut 1234)

/-- The first probe denies the key, although the second one will find it. -/
theorem contains_denies :
    ¬ ContainsRight intKeys sampleJson "/kv".toList sampleFiles emptyStore 1234 := by
  intro h
  have hyes := h.answer.mpr (.inr ⟨_, sampleFiles_readable⟩)
  rw [contains_answer] at hyes
  cases hyes

end Fgds.Backend
