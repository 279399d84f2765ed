import Fgds.Backend.Restart
import Fgds.Lib.Runs

/-!
# The index and the disk

Puts, loads, probes and the start-up scan of the backend, interleaved. A put writes the data file
under a temporary name and renames it (in a worker thread), enters the key into `hot_cache` and
starts a task (on the event loop) that writes the metadata file under a temporary name and
renames it; a callback removes the key again if that failed, whichever put entered it. Every
write and every rename may fail, and leaves anything under the temporary name.

* `Backed`: what `hot_cache` promises about a key;
* `Inv`: what the files and the phases of the puts say;
* `index_backed`: in every reachable state each key in `hot_cache` is backed by the disk, and in a
  quiescent state by both files.
-/

namespace Fgds.Backend

open Fgds.Lib.Runs

/-! ## Tasks -/

/-- One call of `_async_save_bytes_to_disk`. -/
structure Task (json : Json) (Key : Type) where
  put : Put json Key
  tmp : TmpSuffix
  physicalSize : Int

/-- How far a put has come. -/
inductive Phase where
  | submitted
  | headed
  | transferred
  | renamed
  | published
  | metaWritten
  | metaRenamed
  | metaFailed
  | finished
  | failed
  deriving DecidableEq, Repr

/-- `_save_gds` is running. -/
def Phase.saving : Phase → Bool
  | .submitted | .headed | .transferred => true
  | _ => false

/-- The metadata task or its callback is pending. -/
def Phase.pending : Phase → Bool
  | .published | .metaWritten | .metaRenamed | .metaFailed => true
  | _ => false

/-- `save_metadata` is running. -/
def Phase.savingMeta : Phase → Bool
  | .published | .metaWritten => true
  | _ => false

/-- The files by their paths, the index, the puts, what the scan and `contains` have read and
not yet entered, and the keys that are being loaded. -/
structure State (json : Json) (Key : Type) where
  fs : Str → Option Bytes
  hot : Key → Option DiskCacheMetadata
  tasks : Nat → Option (Task json Key × Phase)
  reads : List (Key × DiskCacheMetadata)
  loads : List Key

inductive Action (json : Json) (Key : Type) where
  | submit (i : Nat) (t : Task json Key)
  | writeHeader (i : Nat)
  | transfer (i : Nat)
  | rename (i : Nat)
  | saveFails (i : Nat) (left : Option Bytes)
  | publish (i : Nat) (created : Bool)
  | metaWrite (i : Nat)
  | metaRename (i : Nat)
  | metaFails (i : Nat) (left : Option Bytes)
  | callback (i : Nat)
  | readMeta (key : Key)
  | enter (key : Key) (entry : DiskCacheMetadata)
  | load (key : Key)
  | loadFails (key : Key)

/-- A directory that earlier runs have left: every metadata file is complete and has its complete
data file. -/
structure Directory {Key : Type} (keys : CacheKeys Key) (json : Json) (fgdsPath : Str) where
  fs : Str → Option Bytes
  past : List (Put json Key)
  complete : ∀ key c, fs (metaPath keys fgdsPath key) = some c →
    (∃ p ∈ past, p.key = key ∧ fs (dataPath keys fgdsPath key) = some p.image) ∧
      ∃ p ∈ past, p.key = key ∧ c = p.header
  shape : ∀ p ∈ past, ∀ q ∈ past, p.key = q.key →
    p.tensor.shape = q.tensor.shape ∧ p.tensor.dtype = q.tensor.dtype

section Steps

variable {Key : Type} [DecidableEq Key] (keys : CacheKeys Key) {json : Json} (fgdsPath : Str)

def Task.dataTmp (t : Task json Key) : Str := tmpPath (dataPath keys fgdsPath t.put.key) t.tmp

def Task.metaTmp (t : Task json Key) : Str := tmpPath (metaPath keys fgdsPath t.put.key) t.tmp

/-- The entry that `insert_key` makes. -/
def Task.entry (t : Task json Key) : DiskCacheMetadata :=
  ⟨dataPath keys fgdsPath t.put.key, t.physicalSize, t.put.tensor.shape, t.put.tensor.dtype,
    t.put.fmt⟩

namespace State

/-- If the put `i` is in a phase that `ok` allows, go on with it. -/
def goOn (s : State json Key) (i : Nat) (ok : Phase → Bool)
    (next : Task json Key → Phase → State json Key) : State json Key :=
  match s.tasks i with
  | none => s
  | some (t, ph) => if ok ph then next t ph else s

def setPhase (s : State json Key) (i : Nat) (t : Task json Key) (ph : Phase) : State json Key :=
  { s with tasks := Function.update s.tasks i (some (t, ph)) }

def write (s : State json Key) (path : Str) (c : Option Bytes) : State json Key :=
  { s with fs := Function.update s.fs path c }

/-- `os.rename`. -/
def rename (s : State json Key) (src dst : Str) : State json Key :=
  { s with fs := Function.update (Function.update s.fs dst (s.fs src)) src none }

def setHot (s : State json Key) (key : Key) (entry : Option DiskCacheMetadata) : State json Key :=
  { s with hot := Function.update s.hot key entry }

def step (s : State json Key) : Action json Key → State json Key
  | .submit i t => s.setPhase i t .submitted
  | .writeHeader i => s.goOn i (· = .submitted) fun t _ =>
    (s.write (t.dataTmp keys fgdsPath) (some t.put.header)).setPhase i t .headed
  | .transfer i => s.goOn i (· = .headed) fun t _ =>
    (s.write (t.dataTmp keys fgdsPath) ((s.fs (t.dataTmp keys fgdsPath)).map fun c =>
      writeAt c metadataMaxSize t.put.tensor.data)).setPhase i t .transferred
  | .rename i => s.goOn i (· = .transferred) fun t _ =>
    (s.rename (t.dataTmp keys fgdsPath) (dataPath keys fgdsPath t.put.key)).setPhase i t .renamed
  | .saveFails i left => s.goOn i Phase.saving fun t _ =>
    (s.write (t.dataTmp keys fgdsPath) left).setPhase i t .failed
  -- if the task cannot be created the entry is removed again in the same step
  | .publish i created => s.goOn i (· = .renamed) fun t _ =>
    if created then (s.setHot t.put.key (some (t.entry keys fgdsPath))).setPhase i t .published
    else (s.setHot t.put.key none).setPhase i t .finished
  | .metaWrite i => s.goOn i (· = .published) fun t _ =>
    (s.write (t.metaTmp keys fgdsPath) (some t.put.header)).setPhase i t .metaWritten
  | .metaRename i => s.goOn i (· = .metaWritten) fun t _ =>
    (s.rename (t.metaTmp keys fgdsPath) (metaPath keys fgdsPath t.put.key)).setPhase i t
      .metaRenamed
  | .metaFails i left => s.goOn i Phase.savingMeta fun t _ =>
    (s.write (t.metaTmp keys fgdsPath) left).setPhase i t .metaFailed
  | .callback i => s.goOn i (fun ph => ph = .metaRenamed ∨ ph = .metaFailed) fun t ph =>
    if ph = .metaFailed then (s.setHot t.put.key none).setPhase i t .finished
    else s.setPhase i t .finished
  | .readMeta key =>
    match s.fs (metaPath keys fgdsPath key) with
    | none => s
    | some c =>
      match readMetadata json key (metaPath keys fgdsPath key) c with
      | .read key entry => { s with reads := (key, entry) :: s.reads }
      | _ => s
  | .enter key entry =>
    if (key, entry) ∈ s.reads then
      { s.setHot key (some entry) with reads := s.reads.erase (key, entry) }
    else s
  | .load key => if (s.hot key).isSome then { s with loads := key :: s.loads } else s
  | .loadFails key =>
    if key ∈ s.loads then { s.setHot key none with loads := s.loads.erase key } else s

end State

end Steps

section Promise

variable {Key : Type} {keys : CacheKeys Key} {json : Json} {fgdsPath : Str}
variable (d : Directory keys json fgdsPath)

/-- A put of this run or of an earlier one. -/
def IsPut (s : State json Key) (p : Put json Key) : Prop :=
  p ∈ d.past ∨ ∃ i t ph, s.tasks i = some (t, ph) ∧ t.put = p

/-- A new put has a suffix that no other put has, and the shape and dtype of the other puts of its
key. -/
def Possible (s : State json Key) : Action json Key → Prop
  | .submit i t => s.tasks i = none ∧
      (∀ j u ph, s.tasks j = some (u, ph) → u.tmp.hex ≠ t.tmp.hex) ∧
      ∀ p, IsPut d s p → p.key = t.put.key →
        p.tensor.shape = t.put.tensor.shape ∧ p.tensor.dtype = t.put.tensor.dtype
  | _ => True

def backend [DecidableEq Key] : System (State json Key) (Action json Key) where
  init := ⟨d.fs, fun _ => none, fun _ => none, [], []⟩
  step := State.step keys fgdsPath
  possible := Possible d

/-! ## The promise -/

/-- The data file is the complete image of a put of the key. -/
def DataOk (s : State json Key) (key : Key) : Prop :=
  ∃ p, IsPut d s p ∧ p.key = key ∧ s.fs (dataPath keys fgdsPath key) = some p.image

/-- The metadata file is that of a put of the key, and complete. -/
def MetaOk (s : State json Key) (key : Key) : Prop :=
  ∃ p, IsPut d s p ∧ p.key = key ∧ s.fs (metaPath keys fgdsPath key) = some p.header

/-- A metadata task of the key, or its callback, is pending. -/
def Pending (s : State json Key) (key : Key) : Prop :=
  ∃ i t ph, s.tasks i = some (t, ph) ∧ t.put.key = key ∧ ph.pending = true

/-- What the disk holds for a key of the index. -/
def Backed (s : State json Key) (key : Key) : Prop :=
  DataOk d s key ∧ (MetaOk d s key ∨ Pending s key)

/-- The entry names the data file, and the shape and dtype of some put of the key. -/
def Describes (s : State json Key) (key : Key) (entry : DiskCacheMetadata) : Prop :=
  entry.path = dataPath keys fgdsPath key ∧ ∃ p, IsPut d s p ∧ p.key = key ∧
    entry.shape = p.tensor.shape ∧ entry.dtype = p.tensor.dtype

/-- The entry names the complete data file of a put of the key, with its shape and dtype. -/
def Promised (s : State json Key) (key : Key) (entry : DiskCacheMetadata) : Prop :=
  entry.path = dataPath keys fgdsPath key ∧ ∃ p, IsPut d s p ∧ p.key = key ∧
    s.fs entry.path = some p.image ∧ entry.shape = p.tensor.shape ∧ entry.dtype = p.tensor.dtype

/-- Both files are there and complete, and of the same shape and dtype. -/
def OnDisk (s : State json Key) (key : Key) : Prop :=
  ∃ p q, (IsPut d s p ∧ p.key = key) ∧ (IsPut d s q ∧ q.key = key) ∧
    s.fs (dataPath keys fgdsPath key) = some p.image ∧
    s.fs (metaPath keys fgdsPath key) = some q.header ∧
    p.tensor.shape = q.tensor.shape ∧ p.tensor.dtype = q.tensor.dtype

/-- No put is under way. -/
def Quiescent (s : State json Key) : Prop :=
  ∀ i t ph, s.tasks i = some (t, ph) → ph = .finished ∨ ph = .failed

/-! ## The invariant -/

/-- What is on the disk in each phase of a put. -/
def Progress (s : State json Key) (t : Task json Key) : Phase → Prop
  | .submitted | .finished | .failed => True
  | .headed => s.fs (t.dataTmp keys fgdsPath) = some t.put.header
  | .transferred => s.fs (t.dataTmp keys fgdsPath) = some t.put.image
  | .renamed | .published | .metaFailed => DataOk d s t.put.key
  | .metaWritten => DataOk d s t.put.key ∧ s.fs (t.metaTmp keys fgdsPath) = some t.put.header
  | .metaRenamed => DataOk d s t.put.key ∧ MetaOk d s t.put.key

structure Inv (s : State json Key) : Prop where
  work : ∀ i t ph, s.tasks i = some (t, ph) → Progress d s t ph
  file : ∀ key c, s.fs (metaPath keys fgdsPath key) = some c → DataOk d s key ∧ MetaOk d s key
  hot : ∀ key e, s.hot key = some e → Describes d s key e ∧ Backed d s key
  reads : ∀ key e, (key, e) ∈ s.reads → Describes d s key e ∧ DataOk d s key ∧ MetaOk d s key
  suffix : ∀ i j t u ph ph', s.tasks i = some (t, ph) → s.tasks j = some (u, ph') →
    t.tmp.hex = u.tmp.hex → i = j
  shape : ∀ p q, IsPut d s p → IsPut d s q → p.key = q.key →
    p.tensor.shape = q.tensor.shape ∧ p.tensor.dtype = q.tensor.dtype

/-- What has been brought to the disk stays there, although other puts may replace it, and
every metadata file has its data file. -/
structure Grows (s s' : State json Key) : Prop where
  puts : ∀ p, IsPut d s p → IsPut d s' p
  data : ∀ key, DataOk d s key → DataOk d s' key
  header : ∀ key, MetaOk d s key → MetaOk d s' key
  file : ∀ key c, s'.fs (metaPath keys fgdsPath key) = some c → DataOk d s' key ∧ MetaOk d s' key

end Promise

section Steps

variable {Key : Type} {keys : CacheKeys Key} {json : Json} {fgdsPath : Str}
variable {d : Directory keys json fgdsPath} {s s' : State json Key}
variable {i : Nat} {t : Task json Key} {ph ph' : Phase}

theorem Describes.mono {key : Key} {e : DiskCacheMetadata} (h : Describes d s key e)
    (hputs : ∀ p, IsPut d s p → IsPut d s' p) : Describes d s' key e := by
  obtain ⟨hpath, p, hp, hrest⟩ := h
  exact ⟨hpath, p, hputs p hp, hrest⟩

theorem Progress.mono {u : Task json Key} (h : Progress d s u ph) (g : Grows d s s')
    (hdata : s'.fs (u.dataTmp keys fgdsPath) = s.fs (u.dataTmp keys fgdsPath))
    (hmeta : s'.fs (u.metaTmp keys fgdsPath) = s.fs (u.metaTmp keys fgdsPath)) :
    Progress d s' u ph := by
  cases ph with
  | submitted | finished | failed => trivial
  | headed | transferred => exact hdata.trans h
  | renamed | published | metaFailed => exact g.data _ h
  | metaWritten => exact ⟨g.data _ h.1, hmeta.trans h.2⟩
  | metaRenamed => exact ⟨g.data _ h.1, g.header _ h.2⟩

/-- It is enough that each file under a final name stays or is again a complete one. -/
theorem Grows.of_files (h : Inv d s) (hputs : ∀ p, IsPut d s p → IsPut d s' p)
    (hdata : ∀ key, s'.fs (dataPath keys fgdsPath key) = s.fs (dataPath keys fgdsPath key) ∨
      DataOk d s' key)
    (hmeta : ∀ key, s'.fs (metaPath keys fgdsPath key) = s.fs (metaPath keys fgdsPath key) ∨
      MetaOk d s' key ∧ DataOk d s key) :
    Grows d s s' := by
  have hdataOk : ∀ key, DataOk d s key → DataOk d s' key := by
    rintro key ⟨p, hp, hkey, hfs⟩
    rcases hdata key with hsame | hok
    · exact ⟨p, hputs p hp, hkey, hsame.trans hfs⟩
    · exact hok
  have hmetaOk : ∀ key, MetaOk d s key → MetaOk d s' key := by
    rintro key ⟨p, hp, hkey, hfs⟩
    rcases hmeta key with hsame | ⟨hok, _⟩
    · exact ⟨p, hputs p hp, hkey, hsame.trans hfs⟩
    · exact hok
  refine ⟨hputs, hdataOk, hmetaOk, fun key c hc => ?_⟩
  rcases hmeta key with hsame | ⟨hok, hd⟩
  · obtain ⟨hd, hm⟩ := h.file key c (hsame.symm.trans hc)
    exact ⟨hdataOk key hd, hmetaOk key hm⟩
  · exact ⟨hdataOk key hd, hok⟩

/-! ## A put that goes on -/

/-- The temporary names of the other puts are theirs alone. -/
theorem Inv.tmp_ne (h : Inv d s) (ht : s.tasks i = some (t, ph)) {j : Nat} {u : Task json Key}
    {phu : Phase} (hj : j ≠ i) (hu : s.tasks j = some (u, phu)) (p q : Str) :
    tmpPath p u.tmp ≠ tmpPath q t.tmp := by
  intro heq
  exact hj (h.suffix j i u t phu ph hu ht (tmpPath_inj heq).2)

section Advance

variable (ht : s.tasks i = some (t, ph))
  (htasks : s'.tasks = Function.update s.tasks i (some (t, ph')))

include ht htasks

/-- The puts are the same; only the phase of one changes. -/
theorem tasks_advance {j : Nat} {u : Task json Key} {phu : Phase}
    (hu : s'.tasks j = some (u, phu)) :
    (j = i ∧ u = t ∧ phu = ph') ∨ (j ≠ i ∧ s.tasks j = some (u, phu)) := by
  rw [htasks] at hu
  by_cases hj : j = i
  · subst hj
    rw [Function.update_self] at hu
    cases hu
    exact .inl ⟨rfl, rfl, rfl⟩
  · rw [Function.update_of_ne hj] at hu
    exact .inr ⟨hj, hu⟩

theorem isPut_advance (p : Put json Key) : IsPut d s' p ↔ IsPut d s p := by
  constructor
  · rintro (hp | ⟨j, u, phu, hu, rfl⟩)
    · exact .inl hp
    · rcases tasks_advance ht htasks hu with ⟨_, rfl, _⟩ | ⟨_, hu⟩
      · exact .inr ⟨i, u, ph, ht, rfl⟩
      · exact .inr ⟨j, u, phu, hu, rfl⟩
  · rintro (hp | ⟨j, u, phu, hu, rfl⟩)
    · exact .inl hp
    · by_cases hj : j = i
      · subst hj
        rw [ht] at hu
        cases hu
        exact .inr ⟨j, t, ph', by rw [htasks, Function.update_self], rfl⟩
      · exact .inr ⟨j, u, phu, by rw [htasks, Function.update_of_ne hj, hu], rfl⟩

/-- A key stays backed if the put remains pending or its metadata file is in place. -/
theorem Backed.advance {key : Key} (h : Backed d s key) (g : Grows d s s')
    (hpending : t.put.key = key → ph.pending = true → ph'.pending = true ∨ MetaOk d s' key) :
    Backed d s' key := by
  obtain ⟨hdata, hmeta | ⟨j, u, phu, hu, rfl, hphu⟩⟩ := h
  · exact ⟨g.data _ hdata, .inl (g.header _ hmeta)⟩
  · refine ⟨g.data _ hdata, ?_⟩
    by_cases hj : j = i
    · subst hj
      rw [ht] at hu
      cases hu
      rcases hpending rfl hphu with hph' | hmeta
      · exact .inr ⟨j, t, ph', by rw [htasks, Function.update_self], rfl, hph'⟩
      · exact .inl hmeta
    · exact .inr ⟨j, u, phu, by rw [htasks, Function.update_of_ne hj, hu], rfl, hphu⟩

theorem Inv.advance (h : Inv d s) (hreads : s'.reads = s.reads) (g : Grows d s s')
    (hframe : ∀ j u phu p, j ≠ i → s.tasks j = some (u, phu) →
      s'.fs (tmpPath p u.tmp) = s.fs (tmpPath p u.tmp))
    (hown : Progress d s' t ph')
    (hhot : ∀ key e, s'.hot key = some e → Describes d s' key e ∧ Backed d s' key) :
    Inv d s' where
  work j u phu hu := by
    rcases tasks_advance ht htasks hu with ⟨rfl, rfl, rfl⟩ | ⟨hj, hu⟩
    · exact hown
    · exact (h.work j u phu hu).mono g (hframe j u phu _ hj hu) (hframe j u phu _ hj hu)
  file := g.file
  hot := hhot
  reads key e he := by
    obtain ⟨hdesc, hdata, hmeta⟩ := h.reads key e (hreads ▸ he)
    exact ⟨hdesc.mono g.puts, g.data key hdata, g.header key hmeta⟩
  suffix j k u v phu phv hu hv heq := by
    rcases tasks_advance ht htasks hu with ⟨rfl, rfl, _⟩ | ⟨_, hu⟩ <;>
      rcases tasks_advance ht htasks hv with ⟨rfl, rfl, _⟩ | ⟨_, hv⟩
    · rfl
    · exact h.suffix _ _ _ _ _ _ ht hv heq
    · exact h.suffix _ _ _ _ _ _ hu ht heq
    · exact h.suffix _ _ _ _ _ _ hu hv heq
  shape p q hp hq := h.shape p q ((isPut_advance ht htasks p).mp hp)
    ((isPut_advance ht htasks q).mp hq)

/-- An entry that stays in the index is still right. -/
theorem Inv.hot_advance (h : Inv d s) (g : Grows d s s') {key : Key} {e : DiskCacheMetadata}
    (he : s.hot key = some e)
    (hpending : t.put.key = key → ph.pending = true → ph'.pending = true ∨ MetaOk d s' key) :
    Describes d s' key e ∧ Backed d s' key := by
  obtain ⟨hdesc, hback⟩ := h.hot key e he
  exact ⟨hdesc.mono g.puts, hback.advance ht htasks g hpending⟩

end Advance

/-! ## Writing under a temporary name -/

theorem Grows.write (h : Inv d s) (ht : s.tasks i = some (t, ph)) (p : Str) (c : Option Bytes)
    (ph' : Phase) : Grows d s ((s.write (tmpPath p t.tmp) c).setPhase i t ph') := by
  refine Grows.of_files h (fun q hq => (isPut_advance ht rfl q).mpr hq) (fun key => .inl ?_)
    fun key => .inl ?_
  · exact Function.update_of_ne (tmpPath_ne_dataPath keys fgdsPath key p t.tmp).symm _ _
  · exact Function.update_of_ne (tmpPath_ne_metaPath keys fgdsPath key p t.tmp).symm _ _

theorem Inv.write (h : Inv d s) (ht : s.tasks i = some (t, ph)) (p : Str) (c : Option Bytes)
    (hpending : ph.pending = true → ph'.pending = true)
    (hown : Progress d ((s.write (tmpPath p t.tmp) c).setPhase i t ph') t ph') :
    Inv d ((s.write (tmpPath p t.tmp) c).setPhase i t ph') := by
  have g := Grows.write h ht p c ph'
  refine h.advance ht rfl rfl g (fun j u phu q hj hu => ?_) hown fun key e he => ?_
  · exact Function.update_of_ne (h.tmp_ne ht hj hu q p) _ _
  · exact h.hot_advance ht rfl g he fun _ hph => .inl (hpending hph)

/-! ## Renaming -/

theorem State.rename_fs (s : State json Key) {src dst path : Str} (hsrc : path ≠ src) :
    (s.rename src dst).fs path = if path = dst then s.fs src else s.fs path := by
  have hupdate : (s.rename src dst).fs path = Function.update s.fs dst (s.fs src) path :=
    Function.update_of_ne hsrc _ _
  rw [hupdate, Function.update_apply]

/-- The data file is replaced by a complete one. -/
theorem Inv.rename (h : Inv d s) (ht : s.tasks i = some (t, .transferred)) :
    Inv d ((s.rename (t.dataTmp keys fgdsPath) (dataPath keys fgdsPath t.put.key)).setPhase i t
      .renamed) := by
  obtain ⟨s', hs'⟩ : ∃ s', s' = (s.rename (t.dataTmp keys fgdsPath)
    (dataPath keys fgdsPath t.put.key)).setPhase i t .renamed := ⟨_, rfl⟩
  have htasks : s'.tasks = Function.update s.tasks i (some (t, .renamed)) := by rw [hs']; rfl
  have hfs : ∀ path, path ≠ t.dataTmp keys fgdsPath →
      s'.fs path = if path = dataPath keys fgdsPath t.put.key then some t.put.image
        else s.fs path := by
    intro path hpath
    have himage : s.fs (t.dataTmp keys fgdsPath) = some t.put.image := h.work i t _ ht
    rw [hs', ← himage]
    exact s.rename_fs hpath
  have hputs : ∀ p, IsPut d s p → IsPut d s' p := fun p => (isPut_advance ht htasks p).mpr
  have hown : DataOk d s' t.put.key := by
    refine ⟨t.put, hputs _ (.inr ⟨i, t, _, ht, rfl⟩), rfl, ?_⟩
    rw [hfs _ (tmpPath_ne_dataPath keys fgdsPath _ _ _).symm, if_pos rfl]
  have g : Grows d s s' := by
    refine Grows.of_files h hputs (fun key => ?_) fun key => .inl ?_
    · by_cases hkey : key = t.put.key
      · exact .inr (hkey ▸ hown)
      · left
        rw [hfs _ (tmpPath_ne_dataPath keys fgdsPath _ _ _).symm,
          if_neg fun heq => hkey (dataPath_injective keys fgdsPath heq)]
    · rw [hfs _ (tmpPath_ne_metaPath keys fgdsPath _ _ _).symm,
        if_neg (dataPath_ne_metaPath keys fgdsPath _ _).symm]
  rw [← hs']
  refine h.advance ht htasks (by rw [hs']; rfl) g (fun j u phu p hj hu => ?_) hown
    fun key e he => ?_
  · rw [hfs _ (h.tmp_ne ht hj hu _ _), if_neg (tmpPath_ne_dataPath keys fgdsPath _ _ _)]
  · rw [hs'] at he
    exact h.hot_advance ht htasks g he (by simp [Phase.pending])

/-- The metadata file is replaced by a complete one; the data file is there already. -/
theorem Inv.metaRename (h : Inv d s) (ht : s.tasks i = some (t, .metaWritten)) :
    Inv d ((s.rename (t.metaTmp keys fgdsPath) (metaPath keys fgdsPath t.put.key)).setPhase i t
      .metaRenamed) := by
  obtain ⟨s', hs'⟩ : ∃ s', s' = (s.rename (t.metaTmp keys fgdsPath)
    (metaPath keys fgdsPath t.put.key)).setPhase i t .metaRenamed := ⟨_, rfl⟩
  have htasks : s'.tasks = Function.update s.tasks i (some (t, .metaRenamed)) := by rw [hs']; rfl
  obtain ⟨hdata, hheader⟩ : DataOk d s t.put.key ∧
      s.fs (t.metaTmp keys fgdsPath) = some t.put.header := h.work i t _ ht
  have hfs : ∀ path, path ≠ t.metaTmp keys fgdsPath →
      s'.fs path = if path = metaPath keys fgdsPath t.put.key then some t.put.header
        else s.fs path := by
    intro path hpath
    rw [hs', ← hheader]
    exact s.rename_fs hpath
  have hputs : ∀ p, IsPut d s p → IsPut d s' p := fun p => (isPut_advance ht htasks p).mpr
  have hown : MetaOk d s' t.put.key := by
    refine ⟨t.put, hputs _ (.inr ⟨i, t, _, ht, rfl⟩), rfl, ?_⟩
    rw [hfs _ (tmpPath_ne_metaPath keys fgdsPath _ _ _).symm, if_pos rfl]
  have g : Grows d s s' := by
    refine Grows.of_files h hputs (fun key => .inl ?_) fun key => ?_
    · rw [hfs _ (tmpPath_ne_dataPath keys fgdsPath _ _ _).symm,
        if_neg (dataPath_ne_metaPath keys fgdsPath _ _)]
    · by_cases hkey : key = t.put.key
      · exact .inr (hkey ▸ ⟨hown, hdata⟩)
      · left
        rw [hfs _ (tmpPath_ne_metaPath keys fgdsPath _ _ _).symm,
          if_neg fun heq => hkey (metaPath_injective keys fgdsPath heq)]
  rw [← hs']
  refine h.advance ht htasks (by rw [hs']; rfl) g (fun j u phu p hj hu => ?_)
    ⟨g.data _ hdata, hown⟩ fun key e he => ?_
  · rw [hfs _ (h.tmp_ne ht hj hu _ _), if_neg (tmpPath_ne_metaPath keys fgdsPath _ _ _)]
  · rw [hs'] at he
    exact h.hot_advance ht htasks g he fun _ _ => .inl rfl

/-! ## The index -/

/-- If the files stay and the puts grow, everything grows. -/
theorem Grows.of_fs (h : Inv d s) (hputs : ∀ p, IsPut d s p → IsPut d s' p) (hfs : s'.fs = s.fs) :
    Grows d s s' :=
  Grows.of_files h hputs (fun _ => .inl (by rw [hfs])) fun _ => .inl (by rw [hfs])

/-- The put ends. If its metadata task had been pending, then the key is removed or the metadata
file is in place. -/
theorem Inv.finish (h : Inv d s) (ht : s.tasks i = some (t, ph))
    {hot' : Key → Option DiskCacheMetadata} (hhot : ∀ k e, hot' k = some e → s.hot k = some e)
    (hmeta : ph.pending = true → hot' t.put.key = none ∨ MetaOk d s t.put.key) :
    Inv d ({ s with hot := hot' }.setPhase i t .finished) := by
  have g : Grows d s ({ s with hot := hot' }.setPhase i t .finished) :=
    Grows.of_fs h (fun p => (isPut_advance ht rfl p).mpr) rfl
  refine h.advance ht rfl rfl g (fun _ _ _ _ _ _ => rfl) trivial fun key e he => ?_
  refine h.hot_advance ht rfl g (hhot key e he) ?_
  rintro rfl hph
  rcases hmeta hph with hnone | hok
  · exact absurd (hnone.symm.trans he) (by simp)
  · exact .inr (g.header _ hok)

/-- A new put: nothing on the disk has changed. -/
theorem Inv.submit (h : Inv d s) (hfree : s.tasks i = none)
    (hsuffix : ∀ j u ph, s.tasks j = some (u, ph) → u.tmp.hex ≠ t.tmp.hex)
    (hshape : ∀ p, IsPut d s p → p.key = t.put.key →
      p.tensor.shape = t.put.tensor.shape ∧ p.tensor.dtype = t.put.tensor.dtype) :
    Inv d (s.setPhase i t .submitted) := by
  obtain ⟨s', hs'⟩ : ∃ s', s' = s.setPhase i t .submitted := ⟨_, rfl⟩
  have htasks : ∀ j, s'.tasks j = if j = i then some (t, .submitted) else s.tasks j := by
    intro j
    rw [hs']
    exact Function.update_apply _ _ _ _
  have hold : ∀ {j u ph}, s.tasks j = some (u, ph) → s'.tasks j = some (u, ph) := by
    intro j u ph hu
    rw [htasks, if_neg, hu]
    rintro rfl
    rw [hfree] at hu
    cases hu
  have hnew : ∀ {j u ph}, s'.tasks j = some (u, ph) →
      (j = i ∧ u = t ∧ ph = .submitted) ∨ s.tasks j = some (u, ph) := by
    intro j u ph hu
    rw [htasks] at hu
    split at hu
    · rename_i hj
      cases hu
      exact .inl ⟨hj, rfl, rfl⟩
    · exact .inr hu
  have hput : ∀ {p}, IsPut d s' p → IsPut d s p ∨ p = t.put := by
    rintro p (hp | ⟨j, u, ph, hu, rfl⟩)
    · exact .inl (.inl hp)
    · rcases hnew hu with ⟨_, rfl, _⟩ | hu
      · exact .inr rfl
      · exact .inl (.inr ⟨j, u, ph, hu, rfl⟩)
  have hputs : ∀ p, IsPut d s p → IsPut d s' p := by
    rintro p (hp | ⟨j, u, ph, hu, rfl⟩)
    · exact .inl hp
    · exact .inr ⟨j, u, ph, hold hu, rfl⟩
  have g : Grows d s s' := Grows.of_fs h hputs (by rw [hs']; rfl)
  rw [← hs']
  refine ⟨fun j u ph hu => ?_, g.file, fun key e he => ?_, fun key e he => ?_,
    fun j k u v phu phv hu hv heq => ?_, fun p q hp hq hkey => ?_⟩
  · rcases hnew hu with ⟨_, rfl, rfl⟩ | hu
    · trivial
    · exact (h.work j u ph hu).mono g (by rw [hs']; rfl) (by rw [hs']; rfl)
  · rw [hs'] at he
    obtain ⟨hdesc, hdata, hrest⟩ := h.hot key e he
    refine ⟨hdesc.mono hputs, g.data _ hdata, ?_⟩
    rcases hrest with hmeta | ⟨j, u, ph, hu, hukey, hph⟩
    · exact .inl (g.header _ hmeta)
    · exact .inr ⟨j, u, ph, hold hu, hukey, hph⟩
  · rw [hs'] at he
    obtain ⟨hdesc, hdata, hmeta⟩ := h.reads key e he
    exact ⟨hdesc.mono hputs, g.data _ hdata, g.header _ hmeta⟩
  · rcases hnew hu with ⟨rfl, rfl, _⟩ | hu <;> rcases hnew hv with ⟨rfl, rfl, _⟩ | hv
    · rfl
    · exact absurd heq.symm (hsuffix _ _ _ hv)
    · exact absurd heq (hsuffix _ _ _ hu)
    · exact h.suffix _ _ _ _ _ _ hu hv heq
  · rcases hput hp with hp | rfl <;> rcases hput hq with hq | rfl
    · exact h.shape p q hp hq hkey
    · exact hshape p hp hkey
    · obtain ⟨hs, hd⟩ := hshape q hq hkey.symm
      exact ⟨hs.symm, hd.symm⟩
    · exact ⟨rfl, rfl⟩

/-- What holds of the state and of every way to go on holds after `goOn`. -/
theorem State.goOn_inv {I : State json Key → Prop} {ok : Phase → Bool}
    {next : Task json Key → Phase → State json Key} (h : I s)
    (hnext : ∀ t ph, s.tasks i = some (t, ph) → ok ph = true → I (next t ph)) :
    I (s.goOn i ok next) := by
  unfold State.goOn
  split
  · exact h
  · rename_i t ph ht
    split
    · rename_i hok
      exact hnext t ph ht hok
    · exact h

/-- The metadata file of a key, if there is one, gives the entry of a put of that key. -/
theorem Inv.readMeta (h : Inv d s) {key : Key} {c : Bytes}
    (hc : s.fs (metaPath keys fgdsPath key) = some c) :
    ∃ e, readMetadata json key (metaPath keys fgdsPath key) c = .read key e ∧
      Describes d s key e := by
  obtain ⟨_, p, hp, rfl, hfs⟩ := h.file key c hc
  have hheader : c = p.header := Option.some.inj (hc.symm.trans hfs)
  rw [hheader]
  exact ⟨_, readMetadata_header keys fgdsPath p, rfl, p, hp, rfl, rfl, rfl⟩

theorem Inv.promised (h : Inv d s) {key : Key} {e : DiskCacheMetadata} (he : s.hot key = some e) :
    Promised d s key e := by
  obtain ⟨⟨hpath, q, hq, hqkey, hshape, hdtype⟩, ⟨p, hp, hpkey, hfs⟩, _⟩ := h.hot key e he
  obtain ⟨hsame, hsame'⟩ := h.shape p q hp hq (hpkey.trans hqkey.symm)
  refine ⟨hpath, p, hp, hpkey, ?_, hshape.trans hsame.symm, hdtype.trans hsame'.symm⟩
  rw [hpath, hfs]

theorem Inv.onDisk (h : Inv d s) (hquiet : Quiescent s) {key : Key} {e : DiskCacheMetadata}
    (he : s.hot key = some e) : OnDisk d s key := by
  obtain ⟨_, ⟨p, hp, hpkey, hfs⟩, hrest⟩ := h.hot key e he
  rcases hrest with ⟨q, hq, hqkey, hheader⟩ | ⟨i, t, ph, ht, _, hph⟩
  · exact ⟨p, q, ⟨hp, hpkey⟩, ⟨hq, hqkey⟩, hfs, hheader,
      h.shape p q hp hq (hpkey.trans hqkey.symm)⟩
  · -- nothing is pending
    rcases hquiet i t ph ht with rfl | rfl
    · cases hph
    · cases hph

variable [DecidableEq Key]

theorem State.setHot_hot (s : State json Key) (key k : Key) (e : Option DiskCacheMetadata) :
    (s.setHot key e).hot k = if k = key then e else s.hot k :=
  Function.update_apply _ _ _ _

theorem State.setHot_none {key k : Key} {e : DiskCacheMetadata}
    (he : (s.setHot key none).hot k = some e) : s.hot k = some e := by
  rw [State.setHot_hot] at he
  split at he
  · cases he
  · exact he

/-- The key is entered and its metadata task starts. -/
theorem Inv.publish (h : Inv d s) (ht : s.tasks i = some (t, .renamed)) :
    Inv d ((s.setHot t.put.key (some (t.entry keys fgdsPath))).setPhase i t .published) := by
  obtain ⟨s', hs'⟩ : ∃ s', s' = (s.setHot t.put.key (some (t.entry keys fgdsPath))).setPhase i t
    .published := ⟨_, rfl⟩
  have htasks : s'.tasks = Function.update s.tasks i (some (t, .published)) := by rw [hs']; rfl
  have hputs : ∀ p, IsPut d s p → IsPut d s' p := fun p => (isPut_advance ht htasks p).mpr
  have hdata : DataOk d s t.put.key := h.work i t _ ht
  have g : Grows d s s' := Grows.of_fs h hputs (by rw [hs']; rfl)
  rw [← hs']
  refine h.advance ht htasks (by rw [hs']; rfl) g (fun _ _ _ _ _ _ => by rw [hs']; rfl)
    (g.data _ hdata) fun key e he => ?_
  have hhot : (s.setHot t.put.key (some (t.entry keys fgdsPath))).hot key = some e := by
    rw [hs'] at he
    exact he
  rw [State.setHot_hot] at hhot
  split at hhot
  · rename_i hkey
    cases hhot
    subst hkey
    refine ⟨⟨rfl, t.put, hputs _ (.inr ⟨i, t, _, ht, rfl⟩), rfl, rfl, rfl⟩, g.data _ hdata,
      .inr ⟨i, t, .published, ?_, rfl, rfl⟩⟩
    rw [htasks, Function.update_self]
  · exact h.hot_advance ht htasks g hhot fun _ _ => .inl rfl

/-- A key is entered or removed outside of a put. -/
theorem Inv.setHot (h : Inv d s) {key : Key} {entry : Option DiskCacheMetadata}
    {reads' : List (Key × DiskCacheMetadata)} {loads' : List Key}
    (hentry : ∀ e, entry = some e → (key, e) ∈ s.reads)
    (hreads : ∀ x ∈ reads', x ∈ s.reads) :
    Inv d { s.setHot key entry with reads := reads', loads := loads' } where
  work := h.work
  file := h.file
  hot k e he := by
    have hhot : (s.setHot key entry).hot k = some e := he
    rw [State.setHot_hot] at hhot
    split at hhot
    · rename_i hk
      subst hk
      obtain ⟨hdesc, hdata, hmeta⟩ := h.reads _ _ (hentry e hhot)
      exact ⟨hdesc, hdata, .inl hmeta⟩
    · exact h.hot k e hhot
  reads k e he := h.reads k e (hreads _ he)
  suffix := h.suffix
  shape := h.shape

/-! ## Every step -/

theorem Inv.step (h : Inv d s) (a : Action json Key) (hp : Possible d s a) :
    Inv d (s.step keys fgdsPath a) := by
  cases a with
  | submit i t =>
    obtain ⟨hfree, hsuffix, hshape⟩ := hp
    exact h.submit hfree hsuffix hshape
  | writeHeader i =>
    refine State.goOn_inv h fun t ph ht hok => ?_
    obtain rfl : ph = .submitted := by simpa using hok
    exact h.write ht _ _ (by simp [Phase.pending]) (Function.update_self _ _ _)
  | transfer i =>
    refine State.goOn_inv h fun t ph ht hok => ?_
    obtain rfl : ph = .headed := by simpa using hok
    have hheader : s.fs (t.dataTmp keys fgdsPath) = some t.put.header := h.work i t _ ht
    have himage : (s.fs (t.dataTmp keys fgdsPath)).map (fun c =>
        writeAt c metadataMaxSize t.put.tensor.data) = some t.put.image := by
      rw [hheader, Option.map_some, writeAt_end (packMetadata_length t.put.packed)]
      rfl
    rw [himage]
    exact h.write ht _ _ (by simp [Phase.pending]) (Function.update_self _ _ _)
  | rename i =>
    refine State.goOn_inv h fun t ph ht hok => ?_
    obtain rfl : ph = .transferred := by simpa using hok
    exact h.rename ht
  | saveFails i left =>
    refine State.goOn_inv h fun t ph ht hok => ?_
    refine h.write ht _ _ (fun hpending => ?_) trivial
    cases ph <;> simp [Phase.saving, Phase.pending] at hok hpending
  | publish i created =>
    refine State.goOn_inv h fun t ph ht hok => ?_
    obtain rfl : ph = .renamed := by simpa using hok
    cases created with
    | true => exact h.publish ht
    | false => exact h.finish ht (fun k e => State.setHot_none) (by simp [Phase.pending])
  | metaWrite i =>
    refine State.goOn_inv h fun t ph ht hok => ?_
    obtain rfl : ph = .published := by simpa using hok
    refine h.write ht _ _ (fun _ => rfl) ⟨?_, Function.update_self _ _ _⟩
    exact (Grows.write h ht _ _ _).data _ (h.work i t _ ht)
  | metaRename i =>
    refine State.goOn_inv h fun t ph ht hok => ?_
    obtain rfl : ph = .metaWritten := by simpa using hok
    exact h.metaRename ht
  | metaFails i left =>
    refine State.goOn_inv h fun t ph ht hok => ?_
    have hdata : DataOk d s t.put.key := by
      have hwork := h.work i t ph ht
      cases ph <;> simp [Phase.savingMeta] at hok
      · exact hwork
      · exact hwork.1
    exact h.write ht _ _ (fun _ => rfl) ((Grows.write h ht _ _ _).data _ hdata)
  | callback i =>
    refine State.goOn_inv h fun t ph ht hok => ?_
    by_cases hph : ph = .metaFailed
    · rw [if_pos hph]
      refine h.finish ht (fun k e => State.setHot_none) fun _ => .inl ?_
      exact (State.setHot_hot s _ _ _).trans (if_pos rfl)
    · rw [if_neg hph]
      obtain rfl : ph = .metaRenamed := by simpa [hph] using hok
      exact h.finish ht (fun _ _ he => he) fun _ => .inr (h.work i t _ ht).2
  | readMeta key =>
    cases hc : s.fs (metaPath keys fgdsPath key) with
    | none => simpa only [State.step, hc] using h
    | some c =>
      obtain ⟨e, hread, hdesc⟩ := h.readMeta hc
      simp only [State.step, hc, hread]
      refine { h with reads := fun k e' he => ?_ }
      rcases List.mem_cons.mp he with heq | hmem
      · cases heq
        exact ⟨hdesc, h.file _ c hc⟩
      · exact h.reads k e' hmem
  | enter key entry =>
    by_cases hmem : (key, entry) ∈ s.reads
    · simp only [State.step, if_pos hmem]
      exact h.setHot (fun e he => Option.some.inj he ▸ hmem) fun x => List.mem_of_mem_erase
    · simpa only [State.step, if_neg hmem] using h
  | load key =>
    by_cases hhot : (s.hot key).isSome
    · simp only [State.step, if_pos hhot]
      exact { h with }
    · simpa only [State.step, if_neg hhot] using h
  | loadFails key =>
    by_cases hmem : key ∈ s.loads
    · simp only [State.step, if_pos hmem]
      exact h.setHot (fun e he => by cases he) fun x hx => hx
    · simpa only [State.step, if_neg hmem] using h

theorem inv_init (d : Directory keys json fgdsPath) : Inv d (backend d).init where
  work i t ph ht := by cases ht
  file key c hc := by
    obtain ⟨⟨p, hp, hkey, hdata⟩, q, hq, hkey', rfl⟩ := d.complete key c hc
    exact ⟨⟨p, .inl hp, hkey, hdata⟩, q, .inl hq, hkey', hc⟩
  hot key e he := by cases he
  reads key e he := by cases he
  suffix i j t u ph ph' ht := by cases ht
  shape p q hp hq hkey := by
    rcases hp with hp | ⟨_, _, _, hp, _⟩
    · rcases hq with hq | ⟨_, _, _, hq, _⟩
      · exact d.shape p hp q hq hkey
      · cases hq
    · cases hp

/-! ## Every run -/

/-- **The index and the disk.** For every interleaving of puts that succeed or fail at any point,
failing loads, scans and probes, over any keys: a key in `hot_cache` has a complete data file, the
one its entry names, and a complete metadata file or a metadata task or callback that is pending;
when no put is under way it has both files. -/
theorem index_backed (h : Run (backend d) (fun _ _ => True) s) {key : Key} {e : DiskCacheMetadata}
    (he : s.hot key = some e) :
    Backed d s key ∧ Promised d s key e ∧ (Quiescent s → OnDisk d s key) := by
  have hinv : Inv d s := h.inv (inv_init d) fun s a hs hp _ => hs.step a hp
  exact ⟨(hinv.hot key e he).2, hinv.promised he, fun hquiet => hinv.onDisk hquiet he⟩

end Steps

/-! ## An example -/

def emptyDirectory : Directory intKeys sampleJson "/kv".toList where
  fs _ := none
  past := []
  complete key c hc := by cases hc
  shape p hp := by cases hp

def sampleTask : Task sampleJson Int where
  put := samplePut 1234
  tmp := ⟨"0badcafe".toList, by decide, by simp⟩
  physicalSize := 2

def otherBytes : Tensor := ⟨.uint8, [2], [3, 4], rfl⟩

theorem otherBytes_packed : (packMetadata sampleJson otherBytes 1 versionMetadata).isSome := by
  decide +kernel

/-- A second put of the same key, with other bytes. -/
def otherTask : Task sampleJson Int where
  put :=
    { key := 1234
      tensor := otherBytes
      fmt := 1
      header := (packMetadata sampleJson otherBytes 1 versionMetadata).get otherBytes_packed
      packed := (Option.some_get _).symm }
  tmp := ⟨"5eaf00d5".toList, by decide, by simp⟩
  physicalSize := 2

abbrev sampleBackend : System (State sampleJson Int) (Action sampleJson Int) :=
  backend emptyDirectory

/-- Both puts at the same time, up to the data file of the first in the place of that of the
second. -/
def overlapping : List (Action sampleJson Int) :=
  [.submit 0 sampleTask, .submit 1 otherTask, .writeHeader 0, .writeHeader 1, .transfer 1,
    .transfer 0, .rename 1, .publish 1 true, .rename 0]

/-- The metadata files, in the other order. -/
def overlappingEnd : List (Action sampleJson Int) :=
  [.publish 0 true, .metaWrite 0, .metaWrite 1, .metaRename 0, .metaRename 1, .callback 1,
    .callback 0]

theorem overlapping_possible :
    sampleBackend.Along sampleBackend.possible sampleBackend.init overlapping := by
  refine ⟨⟨rfl, fun j u ph hu => ?_, fun p hp => ?_⟩, ⟨rfl, fun j u ph hu => ?_, fun p hp _ => ?_⟩,
    trivial, trivial, trivial, trivial, trivial, trivial, trivial, trivial⟩
  · cases hu
  · rcases hp with hp | ⟨_, _, _, hp, _⟩ <;> cases hp
  -- the first put is running now
  · rcases j with _ | j <;> cases hu
    decide
  · rcases hp with hp | ⟨j, t, ph, ht, rfl⟩
    · cases hp
    · rcases j with _ | j <;> cases ht
      exact ⟨rfl, rfl⟩

theorem overlapping_run :
    Run sampleBackend (fun _ _ => True) (sampleBackend.after sampleBackend.init overlapping) :=
  Run.init.after overlapping_possible (by simp [overlapping, System.Along])

theorem overlappingEnd_run : Run sampleBackend (fun _ _ => True)
    (sampleBackend.after (sampleBackend.after sampleBackend.init overlapping) overlappingEnd) :=
  overlapping_run.after ⟨trivial, trivial, trivial, trivial, trivial, trivial, trivial, trivial⟩
    (by simp [overlappingEnd, System.Along])

/-- The key is backed while the metadata files are missing, and in the end by both files. -/
theorem index_backed_overlapping :
    Backed emptyDirectory (sampleBackend.after sampleBackend.init overlapping) 1234 ∧
      OnDisk emptyDirectory (sampleBackend.after
        (sampleBackend.after sampleBackend.init overlapping) overlappingEnd) 1234 := by
  have hhot : (sampleBackend.after sampleBackend.init overlapping).hot 1234 =
      some (otherTask.entry intKeys "/kv".toList) := rfl
  have hhotEnd : (sampleBackend.after (sampleBackend.after sampleBackend.init overlapping)
      overlappingEnd).hot 1234 = some (sampleTask.entry intKeys "/kv".toList) := rfl
  refine ⟨(index_backed overlapping_run hhot).1, (index_backed overlappingEnd_run hhotEnd).2.2 ?_⟩
  intro j t ph ht
  rcases j with _ | _ | j <;> cases ht <;> exact .inl rfl

end Fgds.Backend
