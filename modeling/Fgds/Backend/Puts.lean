import Fgds.Backend.SaveLoad
import Fgds.Lib.Runs

/-!
# Puts: what is published, and what is in flight

A put by itself: `submit_put_task` takes a reference and enters the key into `put_tasks`;
`_async_save_bytes_to_disk` lets `_save_gds` write the file under a temporary name and rename it,
enters the key into `hot_cache`, starts the metadata task, and in its `finally` gives the reference
and the key back. Every call may fail. The count that `Fgds.write` returns is not looked at.

* `accepted_iff`: which transfers `_save_gds` takes for good;
* `publishes_whole_iff`: a put publishes only whole files, and cleans up, if and only if it does
  not rename a file after a short count;
* `short_count_published`: such a put.

Several puts: `put_tasks` is a set.

* `puts_tracked_iff`: it shows the keys of the unfinished puts at every point if and only if no put
  finishes while another one of its key is unfinished;
* `second_put_untracked`: two puts of one key.
-/

namespace Fgds.Backend.Puts

open Fgds.Lib.Runs

/-! ## One put -/

/-- The files, the index, the metadata writes that have been started, the keys in `put_tasks`, and
the reference count of the object. -/
structure Storage (Key : Type) where
  fs : Str → Option Bytes
  hot : Key → Option DiskCacheMetadata
  metadataTasks : List (Str × Bytes)
  putTasks : Finset Key
  refCount : Int

/-- What comes of the transfer: an exception (a file cannot be opened, truncated or mapped, a
pointer is NULL), or a value of `fgds_write` or of the memcpy. -/
inductive Transferred where
  | raises
  | returns (value : Int)
  deriving DecidableEq

/-- The outcomes of the calls of a put. A call that raises leaves anything under the temporary
name, and so does a transfer that is not complete. -/
structure Outcome where
  makedirs : Bool
  /-- `open` and `write` of the header raise, leaving this -/
  headerRaises : Option (Option Bytes)
  transferred : Transferred
  /-- contents after a transfer that is not complete -/
  left : Bytes
  renames : Bool
  createTask : Bool

/-- The transfer is taken for good: `fgds_bind.fgds_write` raises if the value is negative, and a
code of the memcpy that is not 0 is raised. -/
def accepted : Option Transport → Transferred → Bool
  | some .fgds, .returns value => 0 ≤ value
  | some .gpuMemcpy, .returns value => value = 0
  | none, .returns _ => false
  | _, .raises => false

/-- All bytes were written: `fgds_write` counts them, the memcpy has succeeded. -/
def Whole (nbytes : Nat) : Option Transport → Transferred → Prop
  | some .fgds, .returns value => value = nbytes
  | some .gpuMemcpy, .returns value => value = 0
  | none, .returns _ => False
  | _, .raises => False

instance (nbytes : Nat) : ∀ transport tr, Decidable (Whole nbytes transport tr)
  | some .fgds, .returns value => inferInstanceAs (Decidable (value = nbytes))
  | some .gpuMemcpy, .returns value => inferInstanceAs (Decidable (value = 0))
  | none, .returns _ => isFalse id
  | some .fgds, .raises => isFalse id
  | some .gpuMemcpy, .raises => isFalse id
  | none, .raises => isFalse id

/-- `_save_gds`: the metadata (`none` if it raises), the files, and whether it has renamed. -/
structure Saved where
  metadata : Option Bytes
  fs : Str → Option Bytes
  renamed : Bool

section Put

variable {Key : Type} [DecidableEq Key] (keys : CacheKeys Key) (json : Json) (fgdsPath : Str)
variable (transport : Option Transport)

def saveGds (fs : Str → Option Bytes) (path : Str) (tmp : TmpSuffix) (kvChunk : Tensor)
    (fmt : MemoryFormat) (o : Outcome) : Saved :=
  let tmpFile := tmpPath path tmp
  match packMetadata json kvChunk fmt versionMetadata with
  | none => ⟨none, fs, false⟩
  | some metadata =>
    match o.headerRaises with
    | some left => ⟨none, Function.update fs tmpFile left, false⟩
    | none =>
      let contents :=
        if Whole kvChunk.data.length transport o.transferred then
          writeAt metadata metadataMaxSize kvChunk.data
        else o.left
      if accepted transport o.transferred && o.renames then
        ⟨some metadata, Function.update (Function.update fs path (some contents)) tmpFile none,
          true⟩
      else ⟨none, Function.update fs tmpFile (some contents), false⟩

/-- A chunk, and what `memory_obj` says about it. -/
structure Chunk (Key : Type) where
  key : Key
  kvChunk : Tensor
  fmt : MemoryFormat
  physicalSize : Int
  tmp : TmpSuffix

/-- The entry that `insert_key` makes. -/
def Chunk.entry (c : Chunk Key) : DiskCacheMetadata :=
  ⟨dataPath keys fgdsPath c.key, c.physicalSize, c.kvChunk.shape, c.kvChunk.dtype, c.fmt⟩

/-- `submit_put_task`, up to the start of the coroutine. -/
def submitPutTask (s : Storage Key) (key : Key) : Storage Key :=
  { s with refCount := s.refCount + 1, putTasks := insert key s.putTasks }

/-- The `finally` of the coroutine. -/
def finallyPut (s : Storage Key) (key : Key) : Storage Key :=
  { s with refCount := s.refCount - 1, putTasks := s.putTasks.erase key }

/-- What a put has done. -/
structure Completed (Key : Type) where
  storage : Storage Key
  renamed : Bool
  inserted : Bool
  started : Bool

/-- `_async_save_bytes_to_disk` -/
def asyncSaveBytesToDisk (s : Storage Key) (c : Chunk Key) (o : Outcome) : Completed Key :=
  if o.makedirs = false then ⟨finallyPut s c.key, false, false, false⟩
  else
    let saved := saveGds json transport s.fs (dataPath keys fgdsPath c.key) c.tmp c.kvChunk c.fmt o
    match saved.metadata with
    | none => ⟨finallyPut { s with fs := saved.fs } c.key, saved.renamed, false, false⟩
    | some metadata =>
      let entered := { s with
        fs := saved.fs
        hot := Function.update s.hot c.key (some (c.entry keys fgdsPath)) }
      if o.createTask then
        ⟨finallyPut { entered with
          metadataTasks := (metaPath keys fgdsPath c.key, metadata) :: s.metadataTasks } c.key,
          saved.renamed, true, true⟩
      else
        ⟨finallyPut { entered with hot := Function.update entered.hot c.key none } c.key,
          saved.renamed, true, false⟩

/-- The put as a whole. -/
def put (s : Storage Key) (c : Chunk Key) (o : Outcome) : Completed Key :=
  asyncSaveBytesToDisk keys json fgdsPath transport (submitPutTask s c.key) c o

/-- What a put should do. -/
structure PublishesWhole (s : Storage Key) (c : Chunk Key) (o : Outcome) (done : Completed Key) :
    Prop where
  renames : done.renamed = true → Whole c.kvChunk.data.length transport o.transferred
  inserts : done.inserted = true → Whole c.kvChunk.data.length transport o.transferred
  starts : done.started = true → Whole c.kvChunk.data.length transport o.transferred
  /-- The file then has the header and all bytes of the tensor. -/
  file : ∀ metadata, packMetadata json c.kvChunk c.fmt versionMetadata = some metadata →
    done.renamed = true →
      done.storage.fs (dataPath keys fgdsPath c.key) =
        some (writeAt metadata metadataMaxSize c.kvChunk.data)
  /-- Otherwise everything is as before. -/
  dataFile : ¬ Whole c.kvChunk.data.length transport o.transferred →
    done.storage.fs (dataPath keys fgdsPath c.key) = s.fs (dataPath keys fgdsPath c.key)
  metaFile : ¬ Whole c.kvChunk.data.length transport o.transferred →
    done.storage.fs (metaPath keys fgdsPath c.key) = s.fs (metaPath keys fgdsPath c.key) ∧
      done.storage.metadataTasks = s.metadataTasks
  hot : ¬ Whole c.kvChunk.data.length transport o.transferred → done.storage.hot = s.hot
  /-- The reference taken at submission is dropped once, and the key leaves `put_tasks`. -/
  dropped : done.storage.refCount = (submitPutTask s c.key).refCount - 1
  leaves : c.key ∉ done.storage.putTasks

/-- A count that is neither negative nor all. -/
def ShortCount (nbytes : Nat) (transport : Option Transport) (tr : Transferred) : Prop :=
  transport = some .fgds ∧ ∃ value, tr = .returns value ∧ 0 ≤ value ∧ value ≠ nbytes

/-- Nothing else goes wrong up to the renaming. -/
def Renames (c : Chunk Key) (o : Outcome) : Prop :=
  o.makedirs = true ∧ (packMetadata json c.kvChunk c.fmt versionMetadata).isSome ∧
    o.headerRaises = none ∧ o.renames = true

/-! ### What `_save_gds` does -/

variable {transport} {nbytes : Nat} {tr : Transferred} {o : Outcome}

theorem accepted_iff (nbytes : Nat) :
    accepted transport tr = true ↔ Whole nbytes transport tr ∨ ShortCount nbytes transport tr := by
  cases tr with
  | raises => rcases transport with _ | _ | _ <;> simp [accepted, Whole, ShortCount]
  | returns value =>
    rcases transport with _ | _ | _
    · simp [accepted, Whole, ShortCount]
    · simp only [accepted, Whole, ShortCount, decide_eq_true_eq, Transferred.returns.injEq,
        exists_eq_left', true_and]
      omega
    · simp [accepted, Whole, ShortCount]

theorem not_whole_of_short (h : ShortCount nbytes transport tr) : ¬ Whole nbytes transport tr := by
  obtain ⟨rfl, value, rfl, -, hne⟩ := h
  exact hne

/-- Nothing goes wrong up to the renaming, and the transfer is accepted. -/
def Saves (kvChunk : Tensor) (fmt : MemoryFormat) (transport : Option Transport) (o : Outcome) :
    Prop :=
  (packMetadata json kvChunk fmt versionMetadata).isSome ∧ o.headerRaises = none ∧
    o.renames = true ∧ accepted transport o.transferred = true

/-- An exception, after which only the temporary file has changed, or a file that is renamed. -/
theorem saveGds_cases (transport : Option Transport) (fs : Str → Option Bytes) (path : Str)
    (tmp : TmpSuffix) (kvChunk : Tensor) (fmt : MemoryFormat) (o : Outcome) :
    (¬ Saves json kvChunk fmt transport o ∧
        (saveGds json transport fs path tmp kvChunk fmt o).metadata = none ∧
        (saveGds json transport fs path tmp kvChunk fmt o).renamed = false ∧
        ∀ q, q ≠ tmpPath path tmp →
          (saveGds json transport fs path tmp kvChunk fmt o).fs q = fs q) ∨
      Saves json kvChunk fmt transport o ∧
        ∃ metadata, (saveGds json transport fs path tmp kvChunk fmt o).metadata = some metadata ∧
          (saveGds json transport fs path tmp kvChunk fmt o).renamed = true := by
  unfold saveGds Saves
  dsimp only
  cases packMetadata json kvChunk fmt versionMetadata with
  | none => exact .inl ⟨fun h => (nomatch h.1), rfl, rfl, fun _ _ => rfl⟩
  | some metadata =>
    cases o.headerRaises with
    | some left =>
      exact .inl ⟨fun h => (nomatch h.2.1), rfl, rfl,
        fun q hq => Function.update_of_ne hq _ _⟩
    | none =>
      by_cases hgood : (accepted transport o.transferred && o.renames) = true
      · obtain ⟨hacc, hren⟩ := Bool.and_eq_true_iff.mp hgood
        exact .inr ⟨⟨rfl, rfl, hren, hacc⟩, metadata, by simp [hgood], by simp [hgood]⟩
      · left
        simp only [hgood]
        refine ⟨fun h => hgood ?_, rfl, rfl, fun q hq => Function.update_of_ne hq _ _⟩
        rw [h.2.2.1, h.2.2.2, Bool.and_self]

/-- If nothing goes wrong, the file has the header and all bytes. -/
theorem saveGds_whole (fs : Str → Option Bytes) {path : Str} {tmp : TmpSuffix}
    (hne : path ≠ tmpPath path tmp) {kvChunk : Tensor} {fmt : MemoryFormat} {metadata : Bytes}
    (hpack : packMetadata json kvChunk fmt versionMetadata = some metadata)
    (hheader : o.headerRaises = none) (hrenames : o.renames = true)
    (hwhole : Whole kvChunk.data.length transport o.transferred) :
    (saveGds json transport fs path tmp kvChunk fmt o).metadata = some metadata ∧
      (saveGds json transport fs path tmp kvChunk fmt o).fs path =
        some (writeAt metadata metadataMaxSize kvChunk.data) := by
  have hacc := (accepted_iff kvChunk.data.length).mpr (.inl hwhole)
  simp only [saveGds, hpack, hheader, hwhole, if_true, hacc, hrenames, Bool.and_self, true_and]
  rw [Function.update_of_ne hne, Function.update_self]

/-! ### What a put does -/

variable (s : Storage Key) (c : Chunk Key)

theorem put_dropped (transport : Option Transport) (o : Outcome) :
    (put keys json fgdsPath transport s c o).storage.refCount =
        (submitPutTask s c.key).refCount - 1 ∧
      c.key ∉ (put keys json fgdsPath transport s c o).storage.putTasks := by
  unfold put asyncSaveBytesToDisk
  dsimp only
  split
  · exact ⟨rfl, Finset.notMem_erase _ _⟩
  · split
    · exact ⟨rfl, Finset.notMem_erase _ _⟩
    · split
      · exact ⟨rfl, Finset.notMem_erase _ _⟩
      · exact ⟨rfl, Finset.notMem_erase _ _⟩

/-- An exception before the renaming, or a put that renames. -/
theorem put_cases (transport : Option Transport) (o : Outcome) :
    (¬ (o.makedirs = true ∧ Saves json c.kvChunk c.fmt transport o) ∧
        (put keys json fgdsPath transport s c o).renamed = false ∧
        (put keys json fgdsPath transport s c o).inserted = false ∧
        (put keys json fgdsPath transport s c o).started = false ∧
        (put keys json fgdsPath transport s c o).storage.hot = s.hot ∧
        (put keys json fgdsPath transport s c o).storage.metadataTasks = s.metadataTasks ∧
        ∀ q, q ≠ tmpPath (dataPath keys fgdsPath c.key) c.tmp →
          (put keys json fgdsPath transport s c o).storage.fs q = s.fs q) ∨
      (o.makedirs = true ∧ Saves json c.kvChunk c.fmt transport o) ∧
        (put keys json fgdsPath transport s c o).renamed = true ∧
        (put keys json fgdsPath transport s c o).storage.fs =
          (saveGds json transport s.fs (dataPath keys fgdsPath c.key) c.tmp c.kvChunk c.fmt
            o).fs := by
  unfold put asyncSaveBytesToDisk
  by_cases hdirs : o.makedirs = false
  · rw [if_pos hdirs, hdirs]
    exact .inl ⟨fun h => (nomatch h.1), rfl, rfl, rfl, rfl, rfl, fun _ _ => rfl⟩
  · rw [if_neg hdirs]
    rcases saveGds_cases json transport s.fs (dataPath keys fgdsPath c.key) c.tmp c.kvChunk c.fmt o
      with ⟨hnot, hmeta, hren, hfs⟩ | ⟨hsaves, metadata, hmeta, hren⟩
    · left
      simp only [submitPutTask, hmeta]
      exact ⟨fun h => hnot h.2, hren, trivial, trivial, rfl, rfl, hfs⟩
    · right
      refine ⟨⟨Bool.not_eq_false _ ▸ hdirs, hsaves⟩, ?_⟩
      simp only [submitPutTask, hmeta]
      split
      · exact ⟨hren, rfl⟩
      · exact ⟨hren, rfl⟩

/-- For every put and every outcome of its calls. -/
theorem publishes_whole_iff (transport : Option Transport) (o : Outcome) :
    PublishesWhole keys json fgdsPath transport s c o (put keys json fgdsPath transport s c o) ↔
      ¬ (ShortCount c.kvChunk.data.length transport o.transferred ∧ Renames json c o) := by
  obtain ⟨hdropped, hleaves⟩ := put_dropped keys json fgdsPath s c transport o
  have hsaves : ShortCount c.kvChunk.data.length transport o.transferred ∧ Renames json c o →
      o.makedirs = true ∧ Saves json c.kvChunk c.fmt transport o := by
    rintro ⟨hshort, hdirs, hpack, hheader, hrenames⟩
    exact ⟨hdirs, hpack, hheader, hrenames, (accepted_iff c.kvChunk.data.length).mpr (.inr hshort)⟩
  rcases put_cases keys json fgdsPath s c transport o with
    ⟨hnot, hren, hins, hstart, hhot, htasks, hfs⟩ | ⟨hgood, hren, hfs⟩
  · refine iff_of_true ⟨?_, ?_, ?_, ?_, fun _ => ?_, fun _ => ⟨?_, htasks⟩, fun _ => hhot, hdropped,
      hleaves⟩ (fun h => hnot (hsaves h))
    · simp [hren]
    · simp [hins]
    · simp [hstart]
    · simp [hren]
    · exact hfs _ (tmpPath_ne_dataPath keys fgdsPath _ _ _).symm
    · exact hfs _ (tmpPath_ne_metaPath keys fgdsPath _ _ _).symm
  · obtain ⟨hdirs, hpack, hheader, hrenames, hacc⟩ := hgood
    rcases (accepted_iff c.kvChunk.data.length).mp hacc with hwhole | hshort
    · refine iff_of_true ⟨fun _ => hwhole, fun _ => hwhole, fun _ => hwhole,
        fun metadata hmeta _ => ?_, fun h => absurd hwhole h, fun h => absurd hwhole h,
        fun h => absurd hwhole h, hdropped, hleaves⟩ (fun h => not_whole_of_short h.1 hwhole)
      rw [hfs]
      exact (saveGds_whole json s.fs (tmpPath_ne_dataPath keys fgdsPath _ _ _).symm hmeta hheader
        hrenames hwhole).2
    · exact iff_of_false (fun h => not_whole_of_short hshort (h.renames hren))
        (fun h => h ⟨hshort, hdirs, hpack, hheader, hrenames⟩)

end Put

/-- Two bytes for the key 1234. -/
def twoByteChunk : Chunk Int where
  key := 1234
  kvChunk := twoBytes
  fmt := 1
  physicalSize := 2
  tmp := ⟨"01234567".toList, rfl, by simp⟩

/-- One of the two bytes is written. -/
def oneByte : Outcome := ⟨true, none, .returns 1, [], true, true⟩

/-- An empty backend. -/
def emptyStorage : Storage Int := ⟨fun _ => none, fun _ => none, [], ∅, 1⟩

theorem short_count_published :
    let done := put intKeys sampleJson "/kv".toList (some .fgds) emptyStorage twoByteChunk oneByte
    done.renamed = true ∧ done.inserted = true ∧ done.started = true ∧
      ¬ PublishesWhole intKeys sampleJson "/kv".toList (some .fgds) emptyStorage twoByteChunk
        oneByte done := by
  intro done
  obtain ⟨header, hpack⟩ := Option.isSome_iff_exists.mp sample_packed
  have hdone : done.renamed = true ∧ done.inserted = true ∧ done.started = true := by
    simp [done, put, asyncSaveBytesToDisk, saveGds, twoByteChunk, oneByte, hpack, accepted]
  refine ⟨hdone.1, hdone.2.1, hdone.2.2, fun h => ?_⟩
  have hwhole : (1 : Int) = (2 : Nat) := h.renames hdone.1
  exact absurd hwhole (by decide)

/-! ## Several puts -/

/-- `put_tasks`, and the keys of the puts that have not finished. -/
structure Tracker (Key : Type) where
  putTasks : Finset Key
  unfinished : List Key

inductive Event (Key : Type) where
  | submit (key : Key)
  | finish (key : Key)

section Tracking

variable {Key : Type} [DecidableEq Key]

def Tracker.existsInPutTasks (t : Tracker Key) (key : Key) : Bool := key ∈ t.putTasks

/-- `put_tasks.add` in `submit_put_task`, `put_tasks.discard` in the `finally` of a coroutine. -/
def Tracker.step (t : Tracker Key) : Event Key → Tracker Key
  | .submit key => ⟨insert key t.putTasks, key :: t.unfinished⟩
  | .finish key => ⟨t.putTasks.erase key, t.unfinished.erase key⟩

/-- A put that finishes has been submitted. -/
def tracker : System (Tracker Key) (Event Key) where
  init := ⟨∅, []⟩
  step := Tracker.step
  possible t
    | .submit _ => True
    | .finish key => key ∈ t.unfinished

def Tracked (t : Tracker Key) : Prop :=
  ∀ key, t.existsInPutTasks key = true ↔ key ∈ t.unfinished

/-- A put that finishes is the only unfinished one of its key. -/
def Alone (t : Tracker Key) : Event Key → Prop
  | .submit _ => True
  | .finish key => t.unfinished.count key = 1

theorem tracked_step {t : Tracker Key} (h : Tracked t) (e : Event Key)
    (hp : tracker.possible t e) : Tracked (t.step e) ↔ Alone t e := by
  cases e with
  | submit key =>
    refine iff_of_true (fun x => ?_) trivial
    have := h x
    simp only [Tracker.existsInPutTasks, Tracker.step, decide_eq_true_eq, Finset.mem_insert,
      List.mem_cons] at this ⊢
    rw [this]
  | finish key =>
    have hmem : key ∈ t.unfinished := hp
    constructor
    · intro hafter
      have hgone : key ∉ t.unfinished.erase key := by
        show key ∉ (t.step (.finish key)).unfinished
        rw [← hafter key]
        simp [Tracker.existsInPutTasks, Tracker.step]
      rw [← List.count_eq_zero, List.count_erase_self] at hgone
      have hsome := List.count_pos_iff.mpr hmem
      show t.unfinished.count key = 1
      omega
    · intro halone x
      have halone : t.unfinished.count key = 1 := halone
      have hx := h x
      simp only [Tracker.existsInPutTasks, Tracker.step, decide_eq_true_eq,
        Finset.mem_erase] at hx ⊢
      by_cases heq : x = key
      · have hgone : x ∉ t.unfinished.erase key := by
          rw [← List.count_eq_zero, heq, List.count_erase_self, halone]
        simp [heq, heq ▸ hgone]
      · rw [List.mem_erase_of_ne heq, hx]
        simp [heq]

/-- For every interleaving of submissions and completions. -/
theorem puts_tracked_iff (events : List (Event Key))
    (hp : tracker.Along tracker.possible tracker.init events) :
    tracker.Always Tracked tracker.init events ↔ tracker.Along Alone tracker.init events := by
  have hinit : Tracked (tracker.init : Tracker Key) := by
    simp [Tracked, tracker, Tracker.existsInPutTasks]
  exact System.always_iff hinit (fun t e h he => tracked_step h e he) hp

end Tracking

/-- A key may be put again when its first put has finished. -/
theorem puts_tracked_again :
    tracker.Always Tracked tracker.init
      [Event.submit 7, .submit 8, .finish 7, .submit 7, .finish 8, .finish 7] := by
  refine (puts_tracked_iff _ ?_).mpr ?_
  · simp [System.Along, tracker, Tracker.step]
  · simp [System.Along, tracker, Tracker.step, Alone]

/-- The first of two puts of one key takes it out of the set while the second goes on. -/
theorem second_put_untracked :
    let t := tracker.after tracker.init [Event.submit 7, .submit 7, .finish 7]
    t.existsInPutTasks 7 = false ∧ 7 ∈ t.unfinished := by
  decide

end Fgds.Backend.Puts
