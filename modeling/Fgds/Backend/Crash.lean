import Fgds.Backend.BatchGet
import Fgds.Backend.Index

/-!
# Crashes

The interleavings of puts, probes, scans and loads, now with two more events. The process may die
at any point: the index and all tasks are gone, the directory stays as it is, and a new backend
starts on it. And `Fgds.write` may return after a part of the transfer: the count is not looked
at, and a file that ends too early, or that has holes, gets the name of the chunk.

* `Image`: a data file of a put, whole or as a transfer left it that came back short;
* `Kept`: what the directory and the index say about all puts that were ever submitted;
* `get_returns_put`: whatever has happened, an object that `get_blocking` returns holds the bytes of
  a tensor that was put under this key, or, if the transfer of this put came back short, zeros in
  the place of some of them;
* `scan_after_crash`: what the start-up scan finds in the directory that a crash leaves.
-/

namespace Fgds.Backend.Crash

open Fgds.Lib.Runs

/-! ## Events -/

/-- The backend and its directory; `log` are all puts that were ever submitted, `cut` those whose
transfer came back short. -/
structure Life (json : Json) (Key : Type) where
  now : State json Key
  log : List (Put json Key)
  cut : List (Put json Key)

inductive Event (json : Json) (Key : Type) where
  | act (a : Action json Key)
  | shortTransfer (i : Nat) (tail : Bytes)
  | crash

/-- What is behind the header after a transfer that came back short: too few bytes, or as many as
there should be, with holes in the file where something has not arrived. -/
def Torn (data tail : Bytes) : Prop :=
  tail.length < data.length ∨ tail.length = data.length ∧
    ∀ (j : Nat) (b : UInt8), tail[j]? = some b → data[j]? = some b ∨ b = 0

section Steps

variable {Key : Type} [DecidableEq Key] (keys : CacheKeys Key) {json : Json} (fgdsPath : Str)

def submitted (log : List (Put json Key)) : Action json Key → List (Put json Key)
  | .submit _ t => t.put :: log
  | _ => log

/-- The put `i`, if its transfer is next, is one that came back short. -/
def cutShort (s : State json Key) (cut : List (Put json Key)) (i : Nat) : List (Put json Key) :=
  match s.tasks i with
  | some (t, .headed) => t.put :: cut
  | _ => cut

def Life.step (l : Life json Key) : Event json Key → Life json Key
  | .act a => ⟨l.now.step keys fgdsPath a, submitted l.log a, l.cut⟩
  | .shortTransfer i tail =>
    ⟨l.now.goOn i (· = .headed) fun t _ =>
      (l.now.write (t.dataTmp keys fgdsPath) (some (t.put.header ++ tail))).setPhase i t
        .transferred, l.log, cutShort l.now l.cut i⟩
  | .crash => ⟨⟨l.now.fs, fun _ => none, fun _ => none, [], []⟩, l.log, l.cut⟩

/-- A new put has a suffix that no running put has, and the shape and dtype of the other puts of
its key. -/
def Life.Possible (l : Life json Key) : Event json Key → Prop
  | .act (.submit i t) => l.now.tasks i = none ∧
      (∀ j u ph, l.now.tasks j = some (u, ph) → u.tmp.hex ≠ t.tmp.hex) ∧
      ∀ p ∈ l.log, p.key = t.put.key →
        p.tensor.shape = t.put.tensor.shape ∧ p.tensor.dtype = t.put.tensor.dtype
  | .shortTransfer i tail => ∀ t ph, l.now.tasks i = some (t, ph) → Torn t.put.tensor.data tail
  | _ => True

/-- The life of a directory that was empty at first. -/
def life : System (Life json Key) (Event json Key) where
  init := ⟨⟨fun _ => none, fun _ => none, fun _ => none, [], []⟩, [], []⟩
  step := Life.step keys fgdsPath
  possible := Life.Possible

end Steps

/-! ## The invariant -/

section Invariant

variable {Key : Type} (keys : CacheKeys Key) {json : Json} (fgdsPath : Str)

/-- The bytes of a put, or what is left of them. -/
def Left (cut : List (Put json Key)) (p : Put json Key) (tail : Bytes) : Prop :=
  tail = p.tensor.data ∨ p ∈ cut ∧ Torn p.tensor.data tail

/-- The data file of a put: the header, and the bytes of the tensor or what is left of them. -/
def Image (cut : List (Put json Key)) (p : Put json Key) (c : Bytes) : Prop :=
  ∃ tail, c = p.header ++ tail ∧ Left cut p tail

/-- The files under final names are those of puts, and a metadata file has its data file; there
are no other names but temporary ones. -/
structure Final (log cut : List (Put json Key)) (fs : Str → Option Bytes) : Prop where
  data : ∀ key c, fs (dataPath keys fgdsPath key) = some c →
    ∃ p ∈ log, p.key = key ∧ Image cut p c
  header : ∀ key c, fs (metaPath keys fgdsPath key) = some c →
    (fs (dataPath keys fgdsPath key)).isSome ∧ ∃ p ∈ log, p.key = key ∧ c = p.header
  names : ∀ path c, fs path = some c → (∃ key, path = dataPath keys fgdsPath key) ∨
    (∃ key, path = metaPath keys fgdsPath key) ∨ ∃ p tmp, path = tmpPath p tmp

/-- What is on the disk in each phase of a put. -/
def Working (cut : List (Put json Key)) (fs : Str → Option Bytes) (t : Task json Key) :
    Phase → Prop
  | .submitted | .finished | .failed => True
  | .headed => fs (t.dataTmp keys fgdsPath) = some t.put.header
  | .transferred => ∃ c, fs (t.dataTmp keys fgdsPath) = some c ∧ Image cut t.put c
  | .renamed | .published | .metaRenamed | .metaFailed =>
    (fs (dataPath keys fgdsPath t.put.key)).isSome
  | .metaWritten => (fs (dataPath keys fgdsPath t.put.key)).isSome ∧
    fs (t.metaTmp keys fgdsPath) = some t.put.header

/-- The entry names the data file of the key, and the shape and dtype of a put. -/
def Names (log : List (Put json Key)) (key : Key) (e : DiskCacheMetadata) : Prop :=
  e.path = dataPath keys fgdsPath key ∧
    ∃ p ∈ log, p.key = key ∧ e.shape = p.tensor.shape ∧ e.dtype = p.tensor.dtype

structure Kept (l : Life json Key) : Prop where
  final : Final keys fgdsPath l.log l.cut l.now.fs
  work : ∀ i t ph, l.now.tasks i = some (t, ph) →
    t.put ∈ l.log ∧ Working keys fgdsPath l.cut l.now.fs t ph
  hot : ∀ key e, l.now.hot key = some e → Names keys fgdsPath l.log key e
  reads : ∀ key e, (key, e) ∈ l.now.reads → Names keys fgdsPath l.log key e
  suffix : ∀ i j t u ph ph', l.now.tasks i = some (t, ph) → l.now.tasks j = some (u, ph') →
    t.tmp.hex = u.tmp.hex → i = j
  shape : ∀ p ∈ l.log, ∀ q ∈ l.log, p.key = q.key →
    p.tensor.shape = q.tensor.shape ∧ p.tensor.dtype = q.tensor.dtype

end Invariant

section Steps

variable {Key : Type} {keys : CacheKeys Key} {json : Json} {fgdsPath : Str}
  {log cut : List (Put json Key)} {fs : Str → Option Bytes} {s s' : State json Key} {i : Nat}
  {t : Task json Key} {ph ph' : Phase}

theorem Image.whole (cut : List (Put json Key)) (p : Put json Key) : Image cut p p.image :=
  ⟨p.tensor.data, rfl, .inl rfl⟩

theorem Image.mono {cut' : List (Put json Key)} {p : Put json Key} {c : Bytes}
    (h : Image cut p c) (hcut : ∀ p ∈ cut, p ∈ cut') : Image cut' p c := by
  obtain ⟨tail, hc, hwhole | ⟨hp, htorn⟩⟩ := h
  · exact ⟨tail, hc, .inl hwhole⟩
  · exact ⟨tail, hc, .inr ⟨hcut p hp, htorn⟩⟩

theorem Final.mono {log' cut' : List (Put json Key)} (h : Final keys fgdsPath log cut fs)
    (hlog : ∀ p ∈ log, p ∈ log') (hcut : ∀ p ∈ cut, p ∈ cut') :
    Final keys fgdsPath log' cut' fs where
  data key c hc := by
    obtain ⟨p, hp, hkey, himage⟩ := h.data key c hc
    exact ⟨p, hlog p hp, hkey, himage.mono hcut⟩
  header key c hc := by
    obtain ⟨hdata, p, hp, hrest⟩ := h.header key c hc
    exact ⟨hdata, p, hlog p hp, hrest⟩
  names := h.names

theorem Names.mono {log' : List (Put json Key)} {key : Key} {e : DiskCacheMetadata}
    (h : Names keys fgdsPath log key e) (hlog : ∀ p ∈ log, p ∈ log') :
    Names keys fgdsPath log' key e := by
  obtain ⟨hpath, p, hp, hrest⟩ := h
  exact ⟨hpath, p, hlog p hp, hrest⟩

/-! ## Files -/

/-- Nothing under a final name changes. -/
theorem Final.write (h : Final keys fgdsPath log cut fs) (q : Str) (tmp : TmpSuffix)
    (c : Option Bytes) : Final keys fgdsPath log cut (Function.update fs (tmpPath q tmp) c) where
  data key c' hc := by
    rw [Function.update_of_ne (tmpPath_ne_dataPath keys fgdsPath key q tmp).symm] at hc
    exact h.data key c' hc
  header key c' hc := by
    rw [Function.update_of_ne (tmpPath_ne_metaPath keys fgdsPath key q tmp).symm] at hc
    rw [Function.update_of_ne (tmpPath_ne_dataPath keys fgdsPath key q tmp).symm]
    exact h.header key c' hc
  names path c' hc := by
    by_cases hpath : path = tmpPath q tmp
    · exact .inr (.inr ⟨q, tmp, hpath⟩)
    · rw [Function.update_of_ne hpath] at hc
      exact h.names path c' hc

/-- A data file gets its name. -/
theorem Final.putData (h : Final keys fgdsPath log cut fs) {p : Put json Key} (hp : p ∈ log)
    {c : Bytes} (hc : Image cut p c) :
    Final keys fgdsPath log cut (Function.update fs (dataPath keys fgdsPath p.key) (some c)) where
  data key c' hc' := by
    rw [Function.update_apply] at hc'
    split at hc'
    · rename_i hkey
      obtain rfl := dataPath_injective keys fgdsPath hkey
      exact ⟨p, hp, rfl, Option.some.inj hc' ▸ hc⟩
    · exact h.data key c' hc'
  header key c' hc' := by
    rw [Function.update_of_ne (dataPath_ne_metaPath keys fgdsPath _ _).symm] at hc'
    obtain ⟨hdata, hrest⟩ := h.header key c' hc'
    refine ⟨?_, hrest⟩
    rw [Function.update_apply]
    split
    · rfl
    · exact hdata
  names path c' hc' := by
    by_cases hpath : path = dataPath keys fgdsPath p.key
    · exact .inl ⟨_, hpath⟩
    · rw [Function.update_of_ne hpath] at hc'
      exact h.names path c' hc'

/-- A metadata file gets its name; the data file is there. -/
theorem Final.putHeader (h : Final keys fgdsPath log cut fs) {p : Put json Key} (hp : p ∈ log)
    (hdata : (fs (dataPath keys fgdsPath p.key)).isSome) :
    Final keys fgdsPath log cut
      (Function.update fs (metaPath keys fgdsPath p.key) (some p.header)) where
  data key c' hc' := by
    rw [Function.update_of_ne (dataPath_ne_metaPath keys fgdsPath _ _)] at hc'
    exact h.data key c' hc'
  header key c' hc' := by
    rw [Function.update_of_ne (dataPath_ne_metaPath keys fgdsPath _ _)]
    rw [Function.update_apply] at hc'
    split at hc'
    · rename_i hkey
      obtain rfl := metaPath_injective keys fgdsPath hkey
      exact ⟨hdata, p, hp, rfl, (Option.some.inj hc').symm⟩
    · exact h.header key c' hc'
  names path c' hc' := by
    by_cases hpath : path = metaPath keys fgdsPath p.key
    · exact .inr (.inl ⟨_, hpath⟩)
    · rw [Function.update_of_ne hpath] at hc'
      exact h.names path c' hc'

theorem isSome_data_update {key : Key} (h : (fs (dataPath keys fgdsPath key)).isSome) (q : Str)
    (tmp : TmpSuffix) (c : Option Bytes) :
    (Function.update fs (tmpPath q tmp) c (dataPath keys fgdsPath key)).isSome := by
  rwa [Function.update_of_ne (tmpPath_ne_dataPath keys fgdsPath key q tmp).symm]

/-- Another put does not notice, as long as the files under its temporary names stay and no data
file goes away. -/
theorem Working.frame {fs' : Str → Option Bytes} (h : Working keys fgdsPath cut fs t ph)
    (hdata : ∀ key, (fs (dataPath keys fgdsPath key)).isSome →
      (fs' (dataPath keys fgdsPath key)).isSome)
    (htmp : ∀ q, fs' (tmpPath q t.tmp) = fs (tmpPath q t.tmp)) :
    Working keys fgdsPath cut fs' t ph := by
  cases ph with
  | submitted | finished | failed => trivial
  | headed => exact (htmp _).trans h
  | transferred =>
    obtain ⟨c, hc, himage⟩ := h
    exact ⟨c, (htmp _).trans hc, himage⟩
  | renamed | published | metaRenamed | metaFailed => exact hdata _ h
  | metaWritten => exact ⟨hdata _ h.1, (htmp _).trans h.2⟩

/-- A put goes on. -/
theorem Kept.advance (h : Kept keys fgdsPath ⟨s, log, cut⟩) (ht : s.tasks i = some (t, ph))
    (htasks : s'.tasks = Function.update s.tasks i (some (t, ph')))
    (hfinal : Final keys fgdsPath log cut s'.fs)
    (hdata : ∀ key, (s.fs (dataPath keys fgdsPath key)).isSome →
      (s'.fs (dataPath keys fgdsPath key)).isSome)
    (hframe : ∀ (u : Task json Key) q, u.tmp.hex ≠ t.tmp.hex →
      s'.fs (tmpPath q u.tmp) = s.fs (tmpPath q u.tmp))
    (hown : Working keys fgdsPath cut s'.fs t ph')
    (hhot : ∀ key e, s'.hot key = some e → Names keys fgdsPath log key e)
    (hreads : s'.reads = s.reads) : Kept keys fgdsPath ⟨s', log, cut⟩ where
  final := hfinal
  work j u phu hu := by
    rcases tasks_advance ht htasks hu with ⟨rfl, rfl, rfl⟩ | ⟨hj, hu⟩
    · exact ⟨(h.work j u ph ht).1, hown⟩
    · obtain ⟨hput, hwork⟩ := h.work j u phu hu
      refine ⟨hput, hwork.frame hdata fun q => hframe u q fun heq => ?_⟩
      exact hj (h.suffix j i u t phu ph hu ht heq)
  hot := hhot
  reads key e he := h.reads key e (hreads ▸ he)
  suffix j k u v phu phv hu hv heq := by
    rcases tasks_advance ht htasks hu with ⟨rfl, rfl, _⟩ | ⟨_, hu⟩ <;>
      rcases tasks_advance ht htasks hv with ⟨rfl, rfl, _⟩ | ⟨_, hv⟩
    · rfl
    · exact h.suffix _ _ _ _ _ _ ht hv heq
    · exact h.suffix _ _ _ _ _ _ hu ht heq
    · exact h.suffix _ _ _ _ _ _ hu hv heq
  shape := h.shape

/-- A put writes under one of its temporary names. -/
theorem Kept.write (h : Kept keys fgdsPath ⟨s, log, cut⟩) (ht : s.tasks i = some (t, ph)) (q : Str)
    (c : Option Bytes)
    (hown : Working keys fgdsPath cut (Function.update s.fs (tmpPath q t.tmp) c) t ph') :
    Kept keys fgdsPath ⟨(s.write (tmpPath q t.tmp) c).setPhase i t ph', log, cut⟩ := by
  refine h.advance ht rfl (h.final.write q t.tmp c)
    (fun key hkey => isSome_data_update hkey q t.tmp c) (fun u q' hu => ?_) hown h.hot rfl
  exact Function.update_of_ne (fun heq => hu (tmpPath_inj heq).2) _ _

/-- `os.rename` of a temporary file. -/
theorem Kept.rename (h : Kept keys fgdsPath ⟨s, log, cut⟩) (ht : s.tasks i = some (t, ph))
    {q dst : Str} {c : Bytes} (hc : s.fs (tmpPath q t.tmp) = some c)
    (hdst : ∀ q' tmp, tmpPath q' tmp ≠ dst)
    (hfinal : Final keys fgdsPath log cut (Function.update s.fs dst (some c)))
    (hown : Working keys fgdsPath cut (Function.update (Function.update s.fs dst (some c))
      (tmpPath q t.tmp) none) t ph') :
    Kept keys fgdsPath ⟨(s.rename (tmpPath q t.tmp) dst).setPhase i t ph', log, cut⟩ := by
  have hfs : (s.rename (tmpPath q t.tmp) dst).fs =
      Function.update (Function.update s.fs dst (some c)) (tmpPath q t.tmp) none := by
    rw [← hc]
    rfl
  refine h.advance ht rfl ?_ (fun key hkey => ?_) (fun u q' hu => ?_) ?_ h.hot rfl
  · show Final keys fgdsPath log cut (s.rename (tmpPath q t.tmp) dst).fs
    rw [hfs]
    exact hfinal.write q t.tmp none
  · show ((s.rename (tmpPath q t.tmp) dst).fs _).isSome
    rw [hfs]
    refine isSome_data_update ?_ q t.tmp none
    rw [Function.update_apply]
    split
    · rfl
    · exact hkey
  · show (s.rename (tmpPath q t.tmp) dst).fs (tmpPath q' u.tmp) = _
    rw [hfs, Function.update_of_ne (fun heq => hu (tmpPath_inj heq).2),
      Function.update_of_ne (hdst q' u.tmp)]
  · show Working keys fgdsPath cut (s.rename (tmpPath q t.tmp) dst).fs t ph'
    rwa [hfs]

theorem Kept.renameData (h : Kept keys fgdsPath ⟨s, log, cut⟩)
    (ht : s.tasks i = some (t, .transferred)) :
    Kept keys fgdsPath ⟨(s.rename (t.dataTmp keys fgdsPath)
      (dataPath keys fgdsPath t.put.key)).setPhase i t .renamed, log, cut⟩ := by
  obtain ⟨hput, c, hc, himage⟩ := h.work i t _ ht
  refine h.rename ht hc (tmpPath_ne_dataPath keys fgdsPath t.put.key)
    (h.final.putData hput himage) ?_
  refine isSome_data_update ?_ _ _ _
  rw [Function.update_self]
  rfl

theorem Kept.renameMeta (h : Kept keys fgdsPath ⟨s, log, cut⟩)
    (ht : s.tasks i = some (t, .metaWritten)) :
    Kept keys fgdsPath ⟨(s.rename (t.metaTmp keys fgdsPath)
      (metaPath keys fgdsPath t.put.key)).setPhase i t .metaRenamed, log, cut⟩ := by
  obtain ⟨hput, hdata, hheader⟩ := h.work i t _ ht
  refine h.rename ht hheader (tmpPath_ne_metaPath keys fgdsPath t.put.key)
    (h.final.putHeader hput hdata) ?_
  refine isSome_data_update ?_ _ _ _
  rwa [Function.update_of_ne (dataPath_ne_metaPath keys fgdsPath _ _)]

/-- The phase of a put and the index change, the files do not. -/
theorem Kept.setPhase (h : Kept keys fgdsPath ⟨s, log, cut⟩) (ht : s.tasks i = some (t, ph))
    {hot' : Key → Option DiskCacheMetadata}
    (hhot : ∀ key e, hot' key = some e → Names keys fgdsPath log key e)
    (hown : Working keys fgdsPath cut s.fs t ph') :
    Kept keys fgdsPath ⟨{ s with hot := hot' }.setPhase i t ph', log, cut⟩ :=
  h.advance ht rfl h.final (fun _ hkey => hkey) (fun _ _ _ => rfl) hown hhot rfl

theorem Kept.submit (h : Kept keys fgdsPath ⟨s, log, cut⟩)
    (hsuffix : ∀ j u ph, s.tasks j = some (u, ph) → u.tmp.hex ≠ t.tmp.hex)
    (hshape : ∀ p ∈ log, p.key = t.put.key →
      p.tensor.shape = t.put.tensor.shape ∧ p.tensor.dtype = t.put.tensor.dtype) :
    Kept keys fgdsPath ⟨s.setPhase i t .submitted, t.put :: log, cut⟩ := by
  have hlog : ∀ p ∈ log, p ∈ t.put :: log := fun p => List.mem_cons_of_mem _
  have hnew : ∀ {j u ph}, (s.setPhase i t .submitted).tasks j = some (u, ph) →
      (j = i ∧ u = t ∧ ph = .submitted) ∨ s.tasks j = some (u, ph) := by
    intro j u ph hu
    have hu : Function.update s.tasks i (some (t, .submitted)) j = some (u, ph) := hu
    rw [Function.update_apply] at hu
    split at hu
    · rename_i hj
      cases hu
      exact .inl ⟨hj, rfl, rfl⟩
    · exact .inr hu
  refine ⟨h.final.mono hlog fun _ hp => hp, fun j u phu hu => ?_,
    fun key e he => (h.hot key e he).mono hlog, fun key e he => (h.reads key e he).mono hlog,
    fun j k u v phu phv hu hv heq => ?_,
    fun p hp q hq hkey => ?_⟩
  · rcases hnew hu with ⟨_, rfl, rfl⟩ | hu
    · exact ⟨List.mem_cons_self, trivial⟩
    · exact ⟨hlog _ (h.work j u phu hu).1, (h.work j u phu hu).2⟩
  · rcases hnew hu with ⟨rfl, rfl, _⟩ | hu' <;> rcases hnew hv with ⟨rfl, rfl, _⟩ | hv'
    · rfl
    · exact absurd heq.symm (hsuffix _ _ _ hv')
    · exact absurd heq (hsuffix _ _ _ hu')
    · exact h.suffix _ _ _ _ _ _ hu' hv' heq
  · rcases List.mem_cons.mp hp with rfl | hp <;> rcases List.mem_cons.mp hq with rfl | hq
    · exact ⟨rfl, rfl⟩
    · obtain ⟨hs, hd⟩ := hshape q hq hkey.symm
      exact ⟨hs.symm, hd.symm⟩
    · exact hshape p hp hkey
    · exact h.shape p hp q hq hkey

/-- The metadata file of a key gives an entry that names a put. -/
theorem Kept.readMeta (h : Kept keys fgdsPath ⟨s, log, cut⟩) {key : Key} {c : Bytes}
    (hc : s.fs (metaPath keys fgdsPath key) = some c) :
    ∃ e, readMetadata json key (metaPath keys fgdsPath key) c = .read key e ∧
      Names keys fgdsPath log key e := by
  obtain ⟨-, p, hp, rfl, rfl⟩ := h.final.header key c hc
  exact ⟨_, readMetadata_header keys fgdsPath p, rfl, p, hp, rfl, rfl, rfl⟩

variable [DecidableEq Key]

/-- An entry that was not changed, or that is right. -/
theorem names_setHot {key : Key} {entry : Option DiskCacheMetadata}
    (h : Kept keys fgdsPath ⟨s, log, cut⟩)
    (hentry : ∀ e, entry = some e → Names keys fgdsPath log key e) (k : Key)
    (e : DiskCacheMetadata) (he : (s.setHot key entry).hot k = some e) :
    Names keys fgdsPath log k e := by
  rw [State.setHot_hot] at he
  split at he
  · rename_i hk
    rw [hk]
    exact hentry e he
  · exact h.hot k e he

/-- A key is entered or removed outside of a put. -/
theorem Kept.setHot (h : Kept keys fgdsPath ⟨s, log, cut⟩) {key : Key}
    {entry : Option DiskCacheMetadata} {reads' : List (Key × DiskCacheMetadata)}
    {loads' : List Key} (hentry : ∀ e, entry = some e → (key, e) ∈ s.reads)
    (hreads : ∀ x ∈ reads', x ∈ s.reads) :
    Kept keys fgdsPath
      ⟨{ s.setHot key entry with reads := reads', loads := loads' }, log, cut⟩ where
  final := h.final
  work := h.work
  hot := names_setHot h fun e he => h.reads key e (hentry e he)
  reads k e he := h.reads k e (hreads _ he)
  suffix := h.suffix
  shape := h.shape

omit [DecidableEq Key] in
theorem mem_cutShort (s : State json Key) (cut : List (Put json Key)) (i : Nat) :
    ∀ p ∈ cut, p ∈ cutShort s cut i := by
  intro p hp
  unfold cutShort
  split
  · exact List.mem_cons_of_mem _ hp
  · exact hp

omit [DecidableEq Key] in
/-- Nothing depends on a put not being among those that came back short. -/
theorem Kept.mono_cut {cut' : List (Put json Key)} (h : Kept keys fgdsPath ⟨s, log, cut⟩)
    (hcut : ∀ p ∈ cut, p ∈ cut') : Kept keys fgdsPath ⟨s, log, cut'⟩ where
  final := h.final.mono (fun _ hp => hp) hcut
  work i t ph ht := by
    obtain ⟨hput, hwork⟩ := h.work i t ph ht
    refine ⟨hput, ?_⟩
    cases ph with
    | transferred =>
      obtain ⟨c, hc, himage⟩ := hwork
      exact ⟨c, hc, himage.mono hcut⟩
    | _ => exact hwork
  hot := h.hot
  reads := h.reads
  suffix := h.suffix
  shape := h.shape

/-! ## Every step -/

theorem Kept.act (h : Kept keys fgdsPath ⟨s, log, cut⟩) (a : Action json Key)
    (hp : Life.Possible ⟨s, log, cut⟩ (.act a)) :
    Kept keys fgdsPath ⟨s.step keys fgdsPath a, submitted log a, cut⟩ := by
  have hgo : ∀ {i ok} {next : Task json Key → Phase → State json Key},
      (∀ t ph, s.tasks i = some (t, ph) → ok ph = true → Kept keys fgdsPath ⟨next t ph, log, cut⟩) →
      Kept keys fgdsPath ⟨s.goOn i ok next, log, cut⟩ := fun hnext =>
    State.goOn_inv (I := fun s => Kept keys fgdsPath ⟨s, log, cut⟩) h hnext
  cases a with
  | submit i t => exact h.submit hp.2.1 hp.2.2
  | writeHeader i =>
    refine hgo fun t ph ht hok => ?_
    exact h.write ht _ _ (Function.update_self _ _ _)
  | transfer i =>
    refine hgo fun t ph ht hok => ?_
    obtain rfl : ph = .headed := by simpa using hok
    have hheader : s.fs (t.dataTmp keys fgdsPath) = some t.put.header := (h.work i t _ ht).2
    have himage : (s.fs (t.dataTmp keys fgdsPath)).map (fun c =>
        writeAt c metadataMaxSize t.put.tensor.data) = some t.put.image := by
      rw [hheader, Option.map_some, writeAt_end (packMetadata_length t.put.packed)]
      rfl
    rw [himage]
    exact h.write ht _ _ ⟨_, Function.update_self _ _ _, Image.whole cut t.put⟩
  | rename i =>
    refine hgo fun t ph ht hok => ?_
    obtain rfl : ph = .transferred := by simpa using hok
    exact h.renameData ht
  | saveFails i left =>
    refine hgo fun t ph ht hok => ?_
    exact h.write ht _ _ trivial
  | publish i created =>
    refine hgo fun t ph ht hok => ?_
    obtain rfl : ph = .renamed := by simpa using hok
    obtain ⟨hput, hwork⟩ := h.work i t _ ht
    cases created with
    | true =>
      refine h.setPhase ht (names_setHot h fun e he => ?_) hwork
      cases he
      exact ⟨rfl, t.put, hput, rfl, rfl, rfl⟩
    | false => exact h.setPhase ht (names_setHot h fun e he => by cases he) trivial
  | metaWrite i =>
    refine hgo fun t ph ht hok => ?_
    obtain rfl : ph = .published := by simpa using hok
    have hdata : (s.fs (dataPath keys fgdsPath t.put.key)).isSome := (h.work i t _ ht).2
    exact h.write ht _ _ ⟨isSome_data_update hdata _ _ _, Function.update_self _ _ _⟩
  | metaRename i =>
    refine hgo fun t ph ht hok => ?_
    obtain rfl : ph = .metaWritten := by simpa using hok
    exact h.renameMeta ht
  | metaFails i left =>
    refine hgo fun t ph ht hok => ?_
    have hdata : (s.fs (dataPath keys fgdsPath t.put.key)).isSome := by
      have hwork := (h.work i t ph ht).2
      cases ph <;> simp [Phase.savingMeta] at hok
      · exact hwork
      · exact hwork.1
    exact h.write ht _ _ (isSome_data_update hdata _ _ _)
  | callback i =>
    refine hgo fun t ph ht hok => ?_
    split
    · exact h.setPhase ht (names_setHot h fun e he => by cases he) trivial
    · exact h.setPhase ht h.hot trivial
  | readMeta key =>
    cases hc : s.fs (metaPath keys fgdsPath key) with
    | none => simpa only [State.step, submitted, hc] using h
    | some c =>
      obtain ⟨e, hread, hnames⟩ := h.readMeta hc
      simp only [State.step, submitted, hc, hread]
      refine { h with reads := fun k e' he => ?_ }
      rcases List.mem_cons.mp he with heq | hmem
      · cases heq
        exact hnames
      · exact h.reads k e' hmem
  | enter key entry =>
    by_cases hmem : (key, entry) ∈ s.reads
    · simp only [State.step, submitted, if_pos hmem]
      exact h.setHot (fun e he => Option.some.inj he ▸ hmem) fun x => List.mem_of_mem_erase
    · simpa only [State.step, submitted, if_neg hmem] using h
  | load key =>
    by_cases hhot : (s.hot key).isSome
    · simp only [State.step, submitted, if_pos hhot]
      exact { h with }
    · simpa only [State.step, submitted, if_neg hhot] using h
  | loadFails key =>
    by_cases hmem : key ∈ s.loads
    · simp only [State.step, submitted, if_pos hmem]
      exact h.setHot (fun e he => by cases he) fun x hx => hx
    · simpa only [State.step, submitted, if_neg hmem] using h

theorem Kept.step {l : Life json Key} (h : Kept keys fgdsPath l) (ev : Event json Key)
    (hp : l.Possible ev) : Kept keys fgdsPath (l.step keys fgdsPath ev) := by
  obtain ⟨s, log, cut⟩ := l
  cases ev with
  | act a => exact h.act a hp
  | shortTransfer i tail =>
    have hnow := h.mono_cut (mem_cutShort s cut i)
    refine State.goOn_inv (I := fun s' => Kept keys fgdsPath ⟨s', log, cutShort s cut i⟩) hnow
      fun t ph ht hok => ?_
    obtain rfl : ph = .headed := by simpa using hok
    have hput : t.put ∈ cutShort s cut i := by
      rw [cutShort, ht]
      exact List.mem_cons_self
    exact hnow.write ht _ _
      ⟨_, Function.update_self _ _ _, tail, rfl, .inr ⟨hput, hp t _ ht⟩⟩
  | crash =>
    refine ⟨h.final, fun i t ph ht => ?_, fun key e he => ?_, fun key e he => ?_,
      fun i j t u ph ph' ht => ?_, h.shape⟩
    · cases ht
    · cases he
    · cases he
    · cases ht

theorem kept_init : Kept keys fgdsPath (life keys fgdsPath : System (Life json Key) _).init where
  final := ⟨fun _ _ h => (nomatch h), fun _ _ h => (nomatch h), fun _ _ h => (nomatch h)⟩
  work _ _ _ h := nomatch h
  hot _ _ h := nomatch h
  reads _ _ h := nomatch h
  suffix _ _ _ _ _ _ h := nomatch h
  shape _ h := nomatch h

/-! ## Every run -/

variable {l : Life json Key}

theorem kept_of_run (h : Run (life keys fgdsPath) (fun _ _ => True) l) : Kept keys fgdsPath l :=
  h.inv kept_init fun _ ev hl hp _ => hl.step ev hp

theorem log_step (l : Life json Key) (ev : Event json Key) {p : Put json Key} (hp : p ∈ l.log) :
    p ∈ (l.step keys fgdsPath ev).log := by
  cases ev with
  | act a =>
    cases a with
    | submit i t => exact List.mem_cons_of_mem _ hp
    | _ => exact hp
  | shortTransfer i tail => exact hp
  | crash => exact hp

/-- Events keep the invariant, and no put is forgotten. -/
theorem Kept.after (h : Kept keys fgdsPath l) {events : List (Event json Key)}
    (hp : (life keys fgdsPath).Along (life keys fgdsPath).possible l events) :
    Kept keys fgdsPath ((life keys fgdsPath).after l events) ∧
      ∀ p ∈ l.log, p ∈ ((life keys fgdsPath).after l events).log := by
  have hstep : ∀ (l' : Life json Key) (ev : Event json Key),
      (Kept keys fgdsPath l' ∧ ∀ p ∈ l.log, p ∈ l'.log) → l'.Possible ev →
      (Kept keys fgdsPath (l'.step keys fgdsPath ev) ∧
        ∀ p ∈ l.log, p ∈ (l'.step keys fgdsPath ev).log) :=
    fun l' ev hl hev => ⟨hl.1.step ev hev, fun p hpl => log_step l' ev (hl.2 p hpl)⟩
  exact System.after_along (S := life keys fgdsPath) ⟨h, fun _ hpl => hpl⟩ hstep hp

/-! ## What is read back -/

omit [DecidableEq Key] in
theorem Left.length_le {p : Put json Key} {tail : Bytes} (h : Left cut p tail) :
    tail.length ≤ p.tensor.data.length := by
  obtain rfl | ⟨_, hshort | ⟨hall, _⟩⟩ := h
  · exact Nat.le_refl _
  · exact Nat.le_of_lt hshort
  · exact Nat.le_of_eq hall

omit [DecidableEq Key] in
/-- A load that is complete gives the tensor of a put, or what is left of it. -/
theorem Kept.chunk (h : Kept keys fgdsPath l) {e : Gets.Env} (hfs : e.fs = l.now.fs) {key : Key}
    {entry : DiskCacheMetadata} (hentry : Names keys fgdsPath l.log key entry) {v : Gets.View}
    (hv : e.chunk entry = some v) :
    ∃ p ∈ l.log, p.key = key ∧ ∃ data, Left l.cut p data ∧ data.length = p.tensor.data.length ∧
      v = ⟨p.tensor.shape, p.tensor.dtype, entry.fmt, data⟩ := by
  obtain ⟨hpath, q, hq, hqkey, hshape, hdtype⟩ := hentry
  obtain ⟨hret, heq⟩ := Option.ite_none_right_eq_some.mp hv
  obtain rfl := Option.some.inj heq
  cases hfile : l.now.fs entry.path with
  | none =>
    simp only [Gets.Env.ret, hfs, hfile] at hret
    omega
  | some c =>
    obtain ⟨p, hp, hpkey, tail, rfl, htail⟩ := h.final.data key c (hpath ▸ hfile)
    obtain ⟨hsame, hsame'⟩ := h.shape p hp q hq (hpkey.trans hqkey.symm)
    have hsize : Gets.entrySize entry = p.tensor.data.length := by
      rw [Gets.entrySize, hshape, hdtype, ← hsame, ← hsame', p.tensor.size]
    have hdrop : (p.header ++ tail).drop metadataMaxSize = tail := by
      rw [← packMetadata_length p.packed, List.drop_left]
    -- the load was complete, so nothing is missing at the end of the file
    have hlong : p.tensor.data.length ≤ tail.length := by
      rw [hsize] at hret
      have hheader := packMetadata_length p.packed
      unfold Gets.Env.ret at hret
      rw [hfs, hfile] at hret
      cases htransport : e.transport with
      | none =>
        simp only [htransport] at hret
        omega
      | some transport =>
        cases transport with
        | fgds =>
          simp only [htransport, hdrop, List.length_take] at hret
          omega
        | gpuMemcpy =>
          simp only [htransport, List.length_append, hheader] at hret
          split at hret <;> omega
    have hlength := Nat.le_antisymm htail.length_le hlong
    refine ⟨p, hp, hpkey, tail, htail, hlength, ?_⟩
    simp only [Gets.Env.data, hfs, hfile, hdrop, hsize, ← hlength, List.take_length, hshape, hdtype,
      hsame, hsame']

/-- An object is only returned if it was allocated and is valid. -/
theorem serves_of_get {e : Gets.Env} {s : Gets.State Key} {key : Key} {o : Gets.MemoryObj}
    (h : (Gets.getBlocking e s key).1 = some o) : Gets.Serves e s [key] := by
  refine ⟨fun entry hentry => ?_, trivial⟩
  rw [Option.mem_def] at hentry
  simp only [Gets.getBlocking, hentry, Gets.loadBytesFromDiskWithAllocation] at h
  cases halloc : Gets.allocate e s entry.shape entry.dtype entry.fmt with
  | mk obj s' =>
    cases obj with
    | none => simp [halloc] at h
    | some o' =>
      refine ⟨o', rfl, ?_⟩
      simp only [halloc, Gets.loadBytesFromDiskWithMemory] at h
      by_contra hvalid
      rw [if_pos (Bool.eq_false_of_not_eq_true hvalid)] at h
      cases h

/-- **Integrity.** Puts of any keys at the same time, any of which may fail at any point or have a
transfer that comes back short; probes, scans, loads and crashes. When `get_blocking` has looked a
key up, anything may happen before it opens the file. If it returns an object, the object has the
shape and the dtype of a tensor that was put under this key, and its bytes; only if the transfer of
this very put came back short, it may have zeros in the place of some of them. -/
theorem get_returns_put (h : Run (life keys fgdsPath) (fun _ _ => True) l)
    {events : List (Event json Key)}
    (hp : (life keys fgdsPath).Along (life keys fgdsPath).possible l events) {e : Gets.Env}
    (hfs : e.fs = ((life keys fgdsPath).after l events).now.fs) (mem : Nat → UInt8)
    (calls : List Gets.Call) {key : Key} {o : Gets.MemoryObj}
    (hget : (Gets.getBlocking e ⟨l.now.hot, mem, calls⟩ key).1 = some o) :
    ∃ p ∈ ((life keys fgdsPath).after l events).log, p.key = key ∧
      ∃ data, Left ((life keys fgdsPath).after l events).cut p data ∧
        data.length = p.tensor.data.length ∧
        e.view (Gets.getBlocking e ⟨l.now.hot, mem, calls⟩ key).2.mem o =
          ⟨p.tensor.shape, p.tensor.dtype, o.fmt, data⟩ := by
  have hkept := kept_of_run h
  obtain ⟨hafter, hlog⟩ := hkept.after hp
  have hresult := (Gets.getBlocking_spec (serves_of_get hget)).result
  rw [hget, Option.map_some] at hresult
  change _ = (l.now.hot key).bind e.chunk at hresult
  cases hentry : l.now.hot key with
  | none => simp [hentry] at hresult
  | some entry =>
    rw [hentry, Option.bind_some] at hresult
    obtain ⟨p, hpl, hkey, data, hleft, hlength, hview⟩ :=
      hafter.chunk hfs ((hkept.hot key entry hentry).mono hlog) hresult.symm
    refine ⟨p, hpl, hkey, data, hleft, hlength, ?_⟩
    rw [hview, Gets.View.mk.injEq]
    exact ⟨rfl, rfl, congrArg Gets.View.fmt hview.symm, rfl⟩

/-! ## What a restart finds -/

/-- Two puts at the same time. The data file of the first replaces that of the second, whose
metadata file is the first in place. -/
def overlapEvents (t u : Task json Key) : List (Event json Key) :=
  [.act (.submit 0 t), .act (.submit 1 u), .act (.writeHeader 0), .act (.writeHeader 1),
    .act (.transfer 1), .act (.transfer 0), .act (.rename 1), .act (.publish 1 true),
    .act (.rename 0), .act (.metaWrite 1), .act (.metaRename 1)]

variable (keys fgdsPath) in
/-- What two such puts of one key leave. -/
theorem after_overlapEvents (l : Life json Key) {t u : Task json Key}
    (hkey : u.put.key = t.put.key) (hsuffix : t.tmp.hex ≠ u.tmp.hex) (path : Str) :
    ((life keys fgdsPath).after l (overlapEvents t u)).now.fs path =
      if path = metaPath keys fgdsPath t.put.key then some u.put.header
      else if path = dataPath keys fgdsPath t.put.key then some t.put.image
      else if path = t.dataTmp keys fgdsPath ∨ path = u.dataTmp keys fgdsPath ∨
        path = u.metaTmp keys fgdsPath then none
      else l.now.fs path := by
  have h01 : (0 : Nat) ≠ 1 := by decide
  simp only [overlapEvents, System.after, life, Life.step, State.step, State.goOn, State.setPhase,
    State.write, State.rename, State.setHot, Function.update_self, Function.update_of_ne h01,
    Function.update_of_ne h01.symm, decide_true, if_true]
  have himage : ∀ p : Put json Key, writeAt p.header metadataMaxSize p.tensor.data = p.image :=
    fun p => writeAt_end (packMetadata_length p.packed) _
  have hdata := tmpPath_ne_dataPath keys fgdsPath t.put.key
  have hmeta := tmpPath_ne_metaPath keys fgdsPath t.put.key
  have hne := dataPath_ne_metaPath keys fgdsPath t.put.key t.put.key
  have htmp : t.dataTmp keys fgdsPath ≠ u.dataTmp keys fgdsPath :=
    fun h => hsuffix (tmpPath_inj h).2
  have htmp' : t.dataTmp keys fgdsPath ≠ u.metaTmp keys fgdsPath :=
    fun h => hsuffix (tmpPath_inj h).2
  simp only [Task.dataTmp, Task.metaTmp, hkey] at htmp htmp' ⊢
  simp only [Option.map_some, himage, Function.update_apply]
  grind

/-- A metadata file that is in place is not removed. -/
theorem Kept.header_step (h : Kept keys fgdsPath l) (ev : Event json Key) {key : Key}
    (hkey : (l.now.fs (metaPath keys fgdsPath key)).isSome) :
    ((l.step keys fgdsPath ev).now.fs (metaPath keys fgdsPath key)).isSome := by
  obtain ⟨s, log, cut⟩ := l
  have hwrite : ∀ q tmp c, (Function.update s.fs (tmpPath q tmp) c
      (metaPath keys fgdsPath key)).isSome := fun q tmp c => by
    rwa [Function.update_of_ne (tmpPath_ne_metaPath keys fgdsPath key q tmp).symm]
  have hrename : ∀ q tmp dst c, s.fs (tmpPath q tmp) = some c →
      ((s.rename (tmpPath q tmp) dst).fs (metaPath keys fgdsPath key)).isSome := by
    intro q tmp dst c hc
    rw [State.rename_fs s (tmpPath_ne_metaPath keys fgdsPath key q tmp).symm]
    split
    · rw [hc]
      rfl
    · exact hkey
  have hgo : ∀ {i ok} {next : Task json Key → Phase → State json Key},
      (∀ t ph, s.tasks i = some (t, ph) → ok ph = true →
        ((next t ph).fs (metaPath keys fgdsPath key)).isSome) →
      ((s.goOn i ok next).fs (metaPath keys fgdsPath key)).isSome := fun hnext =>
    State.goOn_inv (I := fun s => (s.fs (metaPath keys fgdsPath key)).isSome) hkey hnext
  cases ev with
  | act a =>
    cases a with
    | submit i t => exact hkey
    | writeHeader i | transfer i | saveFails i left | metaWrite i | metaFails i left =>
      exact hgo fun t ph ht hok => hwrite _ _ _
    | rename i =>
      refine hgo fun t ph ht hok => ?_
      obtain rfl : ph = .transferred := by simpa using hok
      obtain ⟨_, c, hc, _⟩ := h.work i t _ ht
      exact hrename _ _ _ c hc
    | publish i created => exact hgo fun t ph ht hok => by cases created <;> exact hkey
    | metaRename i =>
      refine hgo fun t ph ht hok => ?_
      obtain rfl : ph = .metaWritten := by simpa using hok
      exact hrename _ _ _ _ (h.work i t _ ht).2.2
    | callback i => exact hgo fun t ph ht hok => by split <;> exact hkey
    | readMeta k =>
      simp only [Life.step, State.step]
      split
      · exact hkey
      · split <;> exact hkey
    | enter k entry | load k | loadFails k =>
      simp only [Life.step, State.step]
      split <;> exact hkey
  | shortTransfer i tail => exact hgo fun t ph ht hok => hwrite _ _ _
  | crash => exact hkey

theorem Kept.header_after (h : Kept keys fgdsPath l) {events : List (Event json Key)}
    (hp : (life keys fgdsPath).Along (life keys fgdsPath).possible l events) {key : Key}
    (hkey : (l.now.fs (metaPath keys fgdsPath key)).isSome) :
    (((life keys fgdsPath).after l events).now.fs (metaPath keys fgdsPath key)).isSome := by
  have hstep : ∀ (l' : Life json Key) (ev : Event json Key),
      (Kept keys fgdsPath l' ∧ (l'.now.fs (metaPath keys fgdsPath key)).isSome) →
      l'.Possible ev → (Kept keys fgdsPath (l'.step keys fgdsPath ev) ∧
        ((l'.step keys fgdsPath ev).now.fs (metaPath keys fgdsPath key)).isSome) :=
    fun l' ev hl hev => ⟨hl.1.step ev hev, hl.1.header_step ev hl.2⟩
  exact (System.after_along (S := life keys fgdsPath) ⟨h, hkey⟩ hstep hp).2

omit [DecidableEq Key] in
/-- A temporary file is left out. -/
theorem scanFile_tmp {dir name q : Str} {tmp : TmpSuffix}
    (hname : dir ++ '/' :: name = tmpPath q tmp)
    (dir' : Str) (c : Bytes) : scanFile keys json dir' name c = .skipped := by
  unfold scanFile
  rw [if_pos]
  intro h
  obtain ⟨r, rfl⟩ := List.isSuffixOf_iff_suffix.mp h
  have hsplit : targetSuffix = ".kvcache.safetensors.".toList ++ "metadata".toList := by decide
  rw [hsplit] at hname
  have hne : tmpPath q tmp ≠
      dir ++ '/' :: (r ++ ".kvcache.safetensors.".toList) ++ "metadata".toList :=
    tmpPath_ne tmp (by decide) ⟨'t', by decide, by decide⟩
  refine hne ?_
  rw [← hname]
  simp

omit [DecidableEq Key] in
/-- The scan reads exactly the metadata files in directories it visits. -/
theorem Final.mem_scan (h : Final keys fgdsPath log cut fs) {files : List (Str × Bytes)}
    (hfiles : ∀ path c, (path, c) ∈ files ↔ fs path = some c) {x : Scanned Key}
    (hx : x ≠ .skipped) :
    x ∈ scanMetadata keys json files fgdsPath ↔
      ∃ p ∈ log, 4 ≤ (hashStr keys p.key).length ∧
        fs (metaPath keys fgdsPath p.key) = some p.header ∧
        x = .read p.key (putEntry keys fgdsPath p) := by
  rw [mem_scanMetadata]
  constructor
  · rintro ⟨l1, l2, name, c, h1, h2, hname, hin, rfl⟩
    have hc := (hfiles _ _).mp hin
    have hpath : dirSlash fgdsPath ++ l1 ++ '/' :: (l2 ++ '/' :: name) =
        dirSlash fgdsPath ++ l1 ++ '/' :: l2 ++ '/' :: name := by simp
    rw [hpath] at hc
    rcases h.names _ c hc with ⟨key, hkey⟩ | ⟨key, hkey⟩ | ⟨q, tmp, htmp⟩
    · rw [dataPath_eq] at hkey
      obtain ⟨_, rfl⟩ := append_slash_inj hname (slash_not_mem_dataName keys key) hkey
      exact absurd (scanFile_data keys _ key c) hx
    · rw [hkey] at hc
      obtain ⟨-, p, hp, rfl, rfl⟩ := h.header key c hc
      rw [metaPath_eq] at hkey
      obtain ⟨hdir, rfl⟩ := append_slash_inj hname (slash_not_mem_metaName keys p.key) hkey
      obtain ⟨hlen, rfl, rfl⟩ := (keyDir_scanned keys fgdsPath p.key h1 h2).mp hdir
      exact ⟨p, hp, hlen, hc,
        scanFile_metadata keys fgdsPath p (osPathJoin_metaName keys fgdsPath p.key)⟩
    · exact absurd (scanFile_tmp htmp _ c) hx
  · rintro ⟨p, hp, hlen, hc, rfl⟩
    obtain ⟨hlen1, hlen2⟩ := length_dirs keys hlen
    have h1 := And.intro hlen1 (slash_not_mem_l1Dir keys p.key)
    have h2 := And.intro hlen2 (slash_not_mem_l2Dir keys p.key)
    refine ⟨_, _, dataName keys p.key ++ metadataFileSuffix, p.header, h1, h2,
      slash_not_mem_metaName keys p.key, (hfiles _ _).mpr ?_,
      (scanFile_metadata keys fgdsPath p (osPathJoin_metaName keys fgdsPath p.key)).symm⟩
    have hdir := (keyDir_scanned keys fgdsPath p.key h1 h2).mpr ⟨hlen, rfl, rfl⟩
    rw [← hc, metaPath_eq, ← hdir]
    congr 1
    simp

/-- **Recovery.** After any run, and whatever happens after it, the scan of the directory does not
fail. It enters the keys whose metadata file was in place at any time, as far as their hash has
four characters or more; and each key that it enters has a data file, the one that its entry
names, and the shape and dtype of a put of this key. -/
theorem scan_after_crash (h : Run (life keys fgdsPath) (fun _ _ => True) l)
    {events : List (Event json Key)}
    (hp : (life keys fgdsPath).Along (life keys fgdsPath).possible l events)
    {files : List (Str × Bytes)} (hfiles : ∀ path c, (path, c) ∈ files ↔
      ((life keys fgdsPath).after l events).now.fs path = some c) :
    .raised ∉ scanMetadata keys json files fgdsPath ∧
      (∀ key, (l.now.fs (metaPath keys fgdsPath key)).isSome → 4 ≤ (hashStr keys key).length →
        ∃ entry, (key, entry) ∈ entered (scanMetadata keys json files fgdsPath)) ∧
      ∀ key entry, (key, entry) ∈ entered (scanMetadata keys json files fgdsPath) →
        Names keys fgdsPath ((life keys fgdsPath).after l events).log key entry ∧
          (((life keys fgdsPath).after l events).now.fs entry.path).isSome := by
  have hkept := kept_of_run h
  have hfinal := (hkept.after hp).1.final
  refine ⟨fun hraised => ?_, fun key hkey hlen => ?_, fun key entry hentry => ?_⟩
  · obtain ⟨_, _, _, _, heq⟩ := (hfinal.mem_scan hfiles (by simp)).mp hraised
    cases heq
  · obtain ⟨c, hc⟩ := Option.isSome_iff_exists.mp (hkept.header_after hp hkey)
    obtain ⟨-, p, hpl, rfl, rfl⟩ := hfinal.header key c hc
    exact ⟨_, mem_entered.mpr
      ((hfinal.mem_scan hfiles (by simp)).mpr ⟨p, hpl, hlen, hc, rfl⟩)⟩
  · obtain ⟨p, hpl, hlen, hc, heq⟩ :=
      (hfinal.mem_scan hfiles (by simp)).mp (mem_entered.mp hentry)
    cases heq
    exact ⟨⟨rfl, p, hpl, rfl, rfl, rfl⟩, (hfinal.header _ _ hc).1⟩

end Steps

/-! ## An example -/

/-- A crash in the middle of a put. Then the chunk is put again, together with another put of its
key, whose transfer leaves a hole in the place of its first byte. -/
def tornEvents : List (Event sampleJson Int) :=
  [.act (.submit 0 sampleTask), .act (.writeHeader 0), .crash, .act (.submit 0 sampleTask),
    .act (.submit 1 otherTask), .act (.writeHeader 0), .act (.writeHeader 1), .act (.transfer 0),
    .shortTransfer 1 [0, 4], .act (.rename 0), .act (.publish 0 true)]

abbrev sampleLife : System (Life sampleJson Int) (Event sampleJson Int) := life intKeys "/kv".toList

/-- The first of the two puts of the key. -/
theorem sampleTask_possible {l : Life sampleJson Int} (htasks : ∀ j, l.now.tasks j = none)
    (hlog : ∀ p ∈ l.log, p = sampleTask.put) : l.Possible (.act (.submit 0 sampleTask)) := by
  refine ⟨htasks 0, fun j u ph hu => ?_, fun p hp _ => ?_⟩
  · rw [htasks j] at hu
    cases hu
  · rw [hlog p hp]
    exact ⟨rfl, rfl⟩

/-- And the second. -/
theorem otherTask_possible {l : Life sampleJson Int}
    (hfirst : l.now.tasks 0 = some (sampleTask, .submitted))
    (hrest : ∀ j, l.now.tasks (j + 1) = none) (hlog : ∀ p ∈ l.log, p = sampleTask.put) :
    l.Possible (.act (.submit 1 otherTask)) := by
  refine ⟨hrest 0, fun j u ph hu => ?_, fun p hp _ => ?_⟩
  · rcases j with _ | j
    · rw [hfirst] at hu
      cases hu
      decide
    · rw [hrest j] at hu
      cases hu
  · rw [hlog p hp]
    exact ⟨rfl, rfl⟩

theorem hole_torn : Torn otherBytes.data [0, 4] := by
  refine .inr ⟨rfl, fun j b hb => ?_⟩
  rcases j with _ | _ | j <;> cases hb
  · exact .inr rfl
  · exact .inl rfl

theorem tornEvents_possible : sampleLife.Along sampleLife.possible sampleLife.init tornEvents := by
  refine ⟨sampleTask_possible (fun _ => rfl) (fun _ hp => by cases hp), trivial, trivial,
    sampleTask_possible (fun _ => rfl) (fun _ hp => List.mem_singleton.mp hp),
    otherTask_possible rfl (fun _ => rfl) (fun _ hp => ?_), trivial, trivial, trivial,
    fun t ph ht => ?_, trivial, trivial, trivial⟩
  · rcases List.mem_pair.mp hp with rfl | rfl <;> rfl
  · cases ht
    exact hole_torn

theorem tornEvents_run : Run sampleLife (fun _ _ => True)
    (sampleLife.after sampleLife.init tornEvents) :=
  Run.init.after tornEvents_possible (by simp [tornEvents, System.Along])

/-- The directory, as the loads see it. -/
def sampleEnv (l : Life sampleJson Int) : Gets.Env where
  alloc := Gets.bumpAllocator
  hasBasePointer := true
  fs := l.now.fs
  transport := some .fgds
  regions := Transfer.twoRegions.head
  registered := Gets.bumpAllocator_registered

/-- Between the lookup and the load the data file is replaced by the one with the hole. -/
theorem get_returns_put_torn :
    let l := sampleLife.after sampleLife.init tornEvents
    let l' := sampleLife.after l [.act (.rename 1)]
    ∃ o, (Gets.getBlocking (sampleEnv l') ⟨l.now.hot, fun _ => 0, []⟩ 1234).1 = some o ∧
      ∃ p ∈ l'.log, p.key = 1234 ∧ ∃ data, Left l'.cut p data ∧
        data.length = p.tensor.data.length ∧ (sampleEnv l').view
          (Gets.getBlocking (sampleEnv l') ⟨l.now.hot, fun _ => 0, []⟩ 1234).2.mem o =
          ⟨p.tensor.shape, p.tensor.dtype, o.fmt, data⟩ := by
  -- for any two states first, so that nothing is evaluated
  have hany : ∀ (l : Life sampleJson Int) (events : List (Event sampleJson Int)) (key : Int)
      (o : Gets.MemoryObj), Run sampleLife (fun _ _ => True) l →
      sampleLife.Along sampleLife.possible l events →
      (Gets.getBlocking (sampleEnv (sampleLife.after l events)) ⟨l.now.hot, fun _ => 0, []⟩
        key).1 = some o → _ :=
    fun l events key o hrun hp hget => get_returns_put hrun hp rfl (fun _ => 0) [] hget
  refine ⟨⟨0, 0, [2], .uint8, 1, true⟩, by decide +kernel, ?_⟩
  exact hany _ [.act (.rename 1)] _ _ tornEvents_run ⟨trivial, trivial⟩ (by decide +kernel)

theorem overlapEvents_possible : sampleLife.Along sampleLife.possible sampleLife.init
    (overlapEvents sampleTask otherTask) :=
  ⟨sampleTask_possible (fun _ => rfl) (fun _ hp => by cases hp),
    otherTask_possible rfl (fun _ => rfl) (fun _ hp => List.mem_singleton.mp hp), trivial, trivial,
    trivial, trivial, trivial, trivial, trivial, trivial, trivial, trivial⟩

/-- What the two puts leave: the data file of the first, the metadata file of the second. -/
def overlapFiles : List (Str × Bytes) :=
  [(dataPath intKeys "/kv".toList 1234, sampleTask.put.image),
    (metaPath intKeys "/kv".toList 1234, otherTask.put.header)]

/-- A crash before the metadata file of the first put: the key is found. -/
theorem scan_after_crash_overlapping :
    ∃ entry, (1234, entry) ∈
      entered (scanMetadata intKeys sampleJson overlapFiles "/kv".toList) := by
  have hrun : Run sampleLife (fun _ _ => True)
      (sampleLife.after sampleLife.init (overlapEvents sampleTask otherTask)) :=
    Run.init.after overlapEvents_possible (by simp [overlapEvents, System.Along])
  have hfs := after_overlapEvents intKeys "/kv".toList sampleLife.init
    (t := sampleTask) (u := otherTask) rfl (by decide)
  obtain ⟨l, hl⟩ :
      ∃ l, l = sampleLife.after sampleLife.init (overlapEvents sampleTask otherTask) := ⟨_, rfl⟩
  rw [← hl] at hrun hfs
  have hfiles : ∀ path c, (path, c) ∈ overlapFiles ↔
      (sampleLife.after l [.crash]).now.fs path = some c := by
    intro path c
    have hne := dataPath_ne_metaPath intKeys "/kv".toList 1234 1234
    have hkey : sampleTask.put.key = 1234 := rfl
    show _ ↔ l.now.fs path = some c
    have hinit : sampleLife.init.now.fs path = none := rfl
    rw [hfs, hinit, ite_self, hkey, overlapFiles]
    simp only [List.mem_cons, List.not_mem_nil, or_false, Prod.mk.injEq]
    grind
  have hcrash : sampleLife.Along sampleLife.possible l [.crash] := ⟨trivial, trivial⟩
  obtain ⟨_, hfound, _⟩ := scan_after_crash hrun hcrash hfiles
  refine hfound 1234 ?_ (by decide)
  rw [hfs]
  exact if_pos rfl ▸ rfl

end Fgds.Backend.Crash
