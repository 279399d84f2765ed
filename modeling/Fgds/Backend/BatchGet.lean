import Fgds.Backend.GetBlocking
import Fgds.Lib.Runs

/-!
# Getting several chunks with the thread pool

`_batched_get_blocking_by_thread_pool_impl` looks all keys up, allocates all objects, and lets the
workers of the pool load them in any order, while a load that fails takes its key out of
`hot_cache`, for which other workers may still be loading.

* `tasksOf_prepared`: the lists that the workers are given are aligned, the objects apart;
* `worker_alone`: the steps of a worker are those of `_load_bytes_from_disk_with_memory`;
* `Inv.step`: what a step of a worker keeps;
* `Inv.results`, `Inv.final_hot`, `Inv.dropped`: the outcome, when all workers are done;
* `batch_one_by_one`: for every order of the steps.
-/

namespace Fgds.Backend.Gets

open Fgds.Lib.Runs Fgds.Device Fgds.Transfer

/-! ## The batch -/

/-- The lists that are filled under `hot_lock`. -/
structure Snapshot where
  paths : List (Option Str)
  dtypes : List (Option Dtype)
  shapes : List (Option (List Nat))
  fmts : List (Option MemoryFormat)

/-- One round of the loop over the keys. -/
def Snapshot.append (snap : Snapshot) : Option DiskCacheMetadata → Snapshot
  | none => ⟨snap.paths ++ [none], snap.dtypes ++ [none], snap.shapes ++ [none],
      snap.fmts ++ [none]⟩
  | some entry => ⟨snap.paths ++ [some entry.path], snap.dtypes ++ [some entry.dtype],
      snap.shapes ++ [some entry.shape], snap.fmts ++ [some entry.fmt]⟩

/-- The arguments of a worker. -/
structure Task (Key : Type) where
  key : Key
  path : Option Str
  memoryObj : Option MemoryObj

/-- Where `_load_bytes_from_disk_with_memory` is. -/
inductive Phase where
  | queued
  | loaded (o : MemoryObj) (ret : Int)
  | dropping (o : MemoryObj)
  | done (result : Option MemoryObj)

def Phase.result : Phase → Option MemoryObj
  | .done result => result
  | _ => none

def Phase.isDone : Phase → Bool
  | .done _ => true
  | _ => false

/-- The backend, and where each worker is. -/
structure Pool (Key : Type) where
  state : State Key
  phase : Nat → Phase

section Batch

variable {Key : Type}

/-- The pool after a step of the worker `i` that leaves `r`. -/
def Pool.set (p : Pool Key) (i : Nat) (r : State Key × Phase) : Pool Key :=
  ⟨r.1, Function.update p.phase i r.2⟩

theorem Pool.set_phase_self (p : Pool Key) (i : Nat) (r : State Key × Phase) :
    (p.set i r).phase i = r.2 := Function.update_self _ _ _

theorem Pool.set_phase_of_ne (p : Pool Key) {i j : Nat} (h : j ≠ i) (r : State Key × Phase) :
    (p.set i r).phase j = p.phase j := Function.update_of_ne h _ _

def snapshot (hot : Key → Option DiskCacheMetadata) (keys : List Key) : Snapshot :=
  keys.foldl (fun snap key => snap.append (hot key)) ⟨[], [], [], []⟩

variable (e : Env)

/-- The loop over `zip(dtypes, shapes, paths, fmts)`. -/
def allocateObjs : State Key →
    List (Option Dtype × Option (List Nat) × Option Str × Option MemoryFormat) →
    List (Option MemoryObj) × State Key
  | s, [] => ([], s)
  | s, (some dtype, some shape, some _, some fmt) :: rest =>
    let (o, s) := allocate e s shape dtype fmt
    let (os, s) := allocateObjs s rest
    (o :: os, s)
  -- the four are None together
  | s, _ :: rest =>
    let (os, s) := allocateObjs s rest
    (none :: os, s)

/-- `_batched_get_blocking_by_thread_pool_impl`, up to `map`: what the workers are given. -/
def tasksOf (s : State Key) (keys : List Key) : List (Task Key) × State Key :=
  let snap := snapshot s.hot keys
  let (memoryObjs, s) :=
    allocateObjs e s (snap.dtypes.zip (snap.shapes.zip (snap.paths.zip snap.fmts)))
  (keys.zipWith (fun key args => ⟨key, args.1, args.2⟩) (snap.paths.zip memoryObjs), s)

/-- One step of a worker: the load, the look at what it returned (and `pop` under the lock), the
drop. -/
def workerStep [DecidableEq Key] (task : Task Key) (s : State Key) : Phase → State Key × Phase
  | .queued =>
    match task.memoryObj with
    | none => (s, .done none)
    | some o =>
      if o.isValid = false then (s, .done none)
      else
        let (ret, mem) := loadObj e s.mem task.path o
        ({ s with mem }, .loaded o ret)
  | .loaded o ret =>
    if ret ≠ o.getSize then (if ret < 0 then pop s task.key else s, .dropping o)
    else (s, .done (some o))
  | .dropping o => (refCountDown s o, .done none)
  | .done result => (s, .done result)

/-- The workers; an action is the number of the one that takes the next step. -/
def workers [DecidableEq Key] (s : State Key) (keys : List Key) : System (Pool Key) Nat where
  init := ⟨(tasksOf e s keys).2, fun _ => .queued⟩
  step p i :=
    match (tasksOf e s keys).1[i]? with
    | none => p
    | some task => p.set i (workerStep e task p.state (p.phase i))
  possible p i := i < (tasksOf e s keys).1.length ∧ (p.phase i).isDone = false

instance [DecidableEq Key] (s : State Key) (keys : List Key) (p : Pool Key) (i : Nat) :
    Decidable ((workers e s keys).possible p i) := inferInstanceAs (Decidable (_ ∧ _))

/-- `list(map(...))` -/
def Pool.results (p : Pool Key) (keys : List Key) : List (Option MemoryObj) :=
  (List.range keys.length).map fun i => (p.phase i).result

/-- How often the reference of an object was dropped. -/
def State.drops (s : State Key) (o : MemoryObj) : Nat := s.calls.count (.refCountDown o)

/-- The allocator does not run out, and its objects are valid. -/
def Task.Served (t : Task Key) : Prop :=
  t.path.isSome = true → ∃ o ∈ t.memoryObj, o.isValid = true

instance (t : Task Key) : Decidable t.Served := inferInstanceAs (Decidable (_ → _))

/-! ### What the workers are given -/

/-- A task for a key: nothing to do, or an object for the entry. -/
inductive Prepared (hot : Key → Option DiskCacheMetadata) : Task Key → Prop
  | absent {key : Key} : hot key = none → Prepared hot ⟨key, none, none⟩
  | present {key : Key} {entry : DiskCacheMetadata} {o : MemoryObj} : hot key = some entry →
      o.For entry → e.Fits o → o.isValid = true → Prepared hot ⟨key, some entry.path, some o⟩

structure TasksSpec (s : State Key) (keys : List Key) (r : List (Task Key) × State Key) :
    Prop where
  keys : r.1.map Task.key = keys
  prepared : ∀ t ∈ r.1, Prepared e s.hot t
  apart : r.1.Pairwise fun t t' =>
    ∀ o ∈ t.memoryObj, ∀ o' ∈ t'.memoryObj, o.Apart o' ∧ o ≠ o'
  fresh : ∀ t ∈ r.1, ∀ o ∈ t.memoryObj,
    s.calls.length ≤ o.id ∧ ∀ o' ∈ inUse s.calls, o'.Apart o
  hot : r.2.hot = s.hot
  allocated : ∀ o, .allocate o ∈ r.2.calls →
    .allocate o ∈ s.calls ∨ ∃ t ∈ r.1, t.memoryObj = some o
  drops : ∀ o, r.2.drops o = s.drops o

variable {e} {s : State Key}

theorem snapshot_eq (hot : Key → Option DiskCacheMetadata) (keys : List Key) :
    snapshot hot keys =
      ⟨keys.map fun k => (hot k).map DiskCacheMetadata.path,
        keys.map fun k => (hot k).map DiskCacheMetadata.dtype,
        keys.map fun k => (hot k).map DiskCacheMetadata.shape,
        keys.map fun k => (hot k).map DiskCacheMetadata.fmt⟩ := by
  suffices hfold : ∀ snap : Snapshot,
      keys.foldl (fun snap key => snap.append (hot key)) snap =
        ⟨snap.paths ++ keys.map fun k => (hot k).map DiskCacheMetadata.path,
          snap.dtypes ++ keys.map fun k => (hot k).map DiskCacheMetadata.dtype,
          snap.shapes ++ keys.map fun k => (hot k).map DiskCacheMetadata.shape,
          snap.fmts ++ keys.map fun k => (hot k).map DiskCacheMetadata.fmt⟩ from hfold _
  induction keys with
  | nil => simp
  | cons key keys ih =>
    intro snap
    rw [List.foldl_cons, ih]
    cases hentry : hot key with
    | none => simp [Snapshot.append, hentry]
    | some entry => simp [Snapshot.append, hentry]

theorem allocate_hot (shape : List Nat) (dtype : Dtype) (fmt : MemoryFormat) :
    (allocate e s shape dtype fmt).2.hot = s.hot := by
  unfold allocate
  split
  · rfl
  · rfl

theorem tasksOf_absent {key : Key} (h : s.hot key = none) (keys : List Key) :
    tasksOf e s (key :: keys) =
      (⟨key, none, none⟩ :: (tasksOf e s keys).1, (tasksOf e s keys).2) := by
  simp [tasksOf, snapshot_eq, allocateObjs, h]

theorem tasksOf_present {key : Key} {entry : DiskCacheMetadata} (h : s.hot key = some entry)
    (keys : List Key) :
    tasksOf e s (key :: keys) =
      let (o, s) := allocate e s entry.shape entry.dtype entry.fmt
      (⟨key, some entry.path, o⟩ :: (tasksOf e s keys).1, (tasksOf e s keys).2) := by
  simp [tasksOf, snapshot_eq, allocateObjs, h, allocate_hot]

/-- The lists stay aligned, and the objects are apart. -/
theorem tasksOf_prepared {keys : List Key} (hserved : ∀ t ∈ (tasksOf e s keys).1, t.Served) :
    TasksSpec e s keys (tasksOf e s keys) := by
  induction keys generalizing s with
  | nil =>
    refine ⟨rfl, fun t ht => ?_, .nil, fun t ht => ?_, rfl, fun o ho => .inl ho, fun _ => rfl⟩
    · exact absurd ht List.not_mem_nil
    · exact absurd ht List.not_mem_nil
  | cons key keys ih =>
    cases hentry : s.hot key with
    | none =>
      rw [tasksOf_absent hentry] at hserved ⊢
      have hrest := ih fun t ht => hserved t (List.mem_cons_of_mem _ ht)
      refine ⟨congrArg _ hrest.keys, ?_, ?_, ?_, hrest.hot, fun o ho => ?_, hrest.drops⟩
      · exact List.forall_mem_cons.mpr ⟨.absent hentry, hrest.prepared⟩
      · exact List.pairwise_cons.mpr ⟨fun _ _ _ ho => (nomatch ho), hrest.apart⟩
      · exact List.forall_mem_cons.mpr ⟨fun _ ho => (nomatch ho), hrest.fresh⟩
      · rcases hrest.allocated o ho with hold | ⟨t, ht, hobj⟩
        · exact .inl hold
        · exact .inr ⟨t, List.mem_cons_of_mem _ ht, hobj⟩
    | some entry =>
      rw [tasksOf_present hentry] at hserved ⊢
      obtain ⟨o, halloc, hvalid⟩ := hserved _ List.mem_cons_self rfl
      obtain ⟨hstate, hid, hfits, hshape, hdtype, hfmt, hapart⟩ := allocate_some halloc
      have hpair : allocate e s entry.shape entry.dtype entry.fmt =
          (some o, { s with calls := .allocate o :: s.calls }) := Prod.ext halloc hstate
      rw [hpair] at hserved ⊢
      have hrest := ih fun t ht => hserved t (List.mem_cons_of_mem _ ht)
      -- the objects of the other keys are placed while this one is in use
      refine ⟨congrArg _ hrest.keys, ?_, ?_, ?_, hrest.hot, fun o' ho' => ?_, fun o' => ?_⟩
      · exact List.forall_mem_cons.mpr
          ⟨.present hentry ⟨hshape, hdtype, hfmt⟩ hfits hvalid, hrest.prepared⟩
      · refine List.pairwise_cons.mpr ⟨fun t ht o₁ ho₁ o₂ ho₂ => ?_, hrest.apart⟩
        obtain rfl := Option.some.inj ho₁
        obtain ⟨hlater, hplaced⟩ := hrest.fresh t ht o₂ ho₂
        refine ⟨hplaced o List.mem_cons_self, ?_⟩
        rintro rfl
        have hlen : s.calls.length + 1 ≤ o.id := hlater
        omega
      · refine List.forall_mem_cons.mpr ⟨fun o₁ ho₁ => ?_, fun t ht o₂ ho₂ => ?_⟩
        · obtain rfl := Option.some.inj ho₁
          exact ⟨hid.ge, hapart⟩
        · obtain ⟨hlater, hplaced⟩ := hrest.fresh t ht o₂ ho₂
          exact ⟨Nat.le_of_succ_le hlater, fun o' ho' => hplaced o' (List.mem_cons_of_mem _ ho')⟩
      · rcases hrest.allocated o' ho' with hold | ⟨t, ht, hobj⟩
        · rcases List.mem_cons.mp hold with hnew | hold
          · cases hnew
            exact .inr ⟨_, List.mem_cons_self, rfl⟩
          · exact .inl hold
        · exact .inr ⟨t, List.mem_cons_of_mem _ ht, hobj⟩
      · rw [hrest.drops o']
        simp [State.drops]

/-- Two tasks with objects are apart, in either order. -/
theorem TasksSpec.apart_of_ne {keys : List Key} {r : List (Task Key) × State Key}
    (h : TasksSpec e s keys r) {i j : Nat} {t t' : Task Key} {o o' : MemoryObj}
    (hi : r.1[i]? = some t) (hj : r.1[j]? = some t') (hne : i ≠ j) (ho : t.memoryObj = some o)
    (ho' : t'.memoryObj = some o') : o.Apart o' ∧ o ≠ o' := by
  obtain ⟨hilt, rfl⟩ := List.getElem?_eq_some_iff.mp hi
  obtain ⟨hjlt, rfl⟩ := List.getElem?_eq_some_iff.mp hj
  have hpair := List.pairwise_iff_getElem.mp h.apart
  rcases Nat.lt_or_gt_of_ne hne with hlt | hlt
  · exact hpair i j hilt hjlt hlt o ho o' ho'
  · obtain ⟨hapart, hdiff⟩ := hpair j i hjlt hilt hlt o' ho' o ho
    exact ⟨hapart.symm, hdiff.symm⟩

theorem TasksSpec.mem_keys {keys : List Key} {r : List (Task Key) × State Key}
    (h : TasksSpec e s keys r) {i : Nat} {t : Task Key} (hi : r.1[i]? = some t) : t.key ∈ keys := by
  rw [← h.keys]
  exact List.mem_map_of_mem (List.mem_of_getElem? hi)

/-- The task at the place of a key. -/
theorem TasksSpec.task {keys : List Key} {r : List (Task Key) × State Key}
    (h : TasksSpec e s keys r) {i : Nat} {key : Key} (hi : keys[i]? = some key) :
    s.hot key = none ∧ r.1[i]? = some ⟨key, none, none⟩ ∨
      ∃ entry o, s.hot key = some entry ∧ r.1[i]? = some ⟨key, some entry.path, some o⟩ := by
  rw [← h.keys, List.getElem?_map, Option.map_eq_some_iff] at hi
  obtain ⟨t, ht, rfl⟩ := hi
  cases h.prepared t (List.mem_of_getElem? ht) with
  | absent hkey => exact .inl ⟨hkey, ht⟩
  | @present key entry o hentry hfor hfits hvalid => exact .inr ⟨entry, o, hentry, ht⟩

theorem TasksSpec.length {keys : List Key} {r : List (Task Key) × State Key}
    (h : TasksSpec e s keys r) : r.1.length = keys.length := by
  simpa using congrArg List.length h.keys

end Batch

/-! ## The workers -/

section Workers

variable {Key : Type} [DecidableEq Key]

/-- What holds for the task of an entry, at each point of its way. -/
def Progress (e : Env) (s : State Key) (key : Key) (entry : DiskCacheMetadata) (o : MemoryObj) :
    Phase → Prop
  | .queued => s.drops o = 0
  | .loaded o' ret => o' = o ∧ ret = e.ret entry.path o.getSize ∧
      (ret = o.getSize → some (e.view s.mem o) = e.chunk entry) ∧ s.drops o = 0
  | .dropping o' => o' = o ∧ e.chunk entry = none ∧ (e.Broken entry → s.hot key = none) ∧
      s.drops o = 0
  | .done none => e.chunk entry = none ∧ (e.Broken entry → s.hot key = none) ∧ s.drops o = 1
  | .done (some o') => o' = o ∧ some (e.view s.mem o) = e.chunk entry ∧ s.drops o = 0

/-- What a step of the worker with this object may change. -/
structure Effect (e : Env) (key : Key) (entry : DiskCacheMetadata) (o : MemoryObj)
    (s s' : State Key) : Prop where
  view : ∀ o', o.Apart o' → e.view s'.mem o' = e.view s.mem o'
  hot : s'.hot = s.hot ∨ e.Broken entry ∧ s'.hot = Function.update s.hot key none
  drops : ∀ o', o ≠ o' → s'.drops o' = s.drops o'
  allocated : ∀ o', .allocate o' ∈ s'.calls → .allocate o' ∈ s.calls

variable {e : Env} {s s' : State Key} {key : Key} {entry : DiskCacheMetadata} {o : MemoryObj}

theorem Effect.refl : Effect e key entry o s s :=
  ⟨fun _ _ => rfl, .inl rfl, fun _ _ => rfl, fun _ h => h⟩

theorem Effect.hot_none {k : Key} (h : Effect e key entry o s s') (hk : s.hot k = none) :
    s'.hot k = none := by
  rcases h.hot with hsame | ⟨-, hpop⟩
  · rwa [hsame]
  · rw [hpop, Function.update_apply, hk, ite_self]

/-- The task of another object does not notice. -/
theorem Progress.frame {key' : Key} {entry' : DiskCacheMetadata} {o' : MemoryObj} {phase : Phase}
    (h : Progress e s key' entry' o' phase) (heffect : Effect e key entry o s s')
    (hapart : o.Apart o') (hne : o ≠ o') : Progress e s' key' entry' o' phase := by
  have hview := heffect.view o' hapart
  have hdrops := heffect.drops o' hne
  cases phase with
  | queued => exact hdrops.trans h
  | loaded o₁ ret =>
    obtain ⟨ho, hret, hdata, hdrop⟩ := h
    exact ⟨ho, hret, fun hsize => (congrArg some hview).trans (hdata hsize), hdrops.trans hdrop⟩
  | dropping o₁ =>
    obtain ⟨ho, hchunk, hhot, hdrop⟩ := h
    exact ⟨ho, hchunk, fun hb => heffect.hot_none (hhot hb), hdrops.trans hdrop⟩
  | done result =>
    cases result with
    | none =>
      obtain ⟨hchunk, hhot, hdrop⟩ := h
      exact ⟨hchunk, fun hb => heffect.hot_none (hhot hb), hdrops.trans hdrop⟩
    | some o₁ =>
      obtain ⟨ho, hdata, hdrop⟩ := h
      exact ⟨ho, (congrArg some hview).trans hdata, hdrops.trans hdrop⟩

/-- A step of the worker of an entry. -/
theorem workerStep_present (hfor : o.For entry) (hfits : e.Fits o) (hvalid : o.isValid = true)
    {phase : Phase} (h : Progress e s key entry o phase) :
    Effect e key entry o s (workerStep e ⟨key, some entry.path, some o⟩ s phase).1 ∧
      Progress e (workerStep e ⟨key, some entry.path, some o⟩ s phase).1 key entry o
        (workerStep e ⟨key, some entry.path, some o⟩ s phase).2 := by
  cases phase with
  | queued =>
    obtain ⟨hret, hframe, hdata⟩ := loadObj_spec s.mem entry.path hfits
    simp only [workerStep, hvalid, Bool.true_eq_false, if_false]
    refine ⟨⟨hframe, .inl rfl, fun _ _ => rfl, fun _ h => h⟩, rfl, hret, fun hsize => ?_, h⟩
    rw [hret] at hsize
    exact view_eq_chunk hfor hsize (hdata hsize)
  | loaded o₁ ret =>
    obtain ⟨rfl, hret, hdata, hdrop⟩ := h
    by_cases hsize : ret = o₁.getSize
    · simp only [workerStep, hsize, ne_eq, not_true_eq_false, if_false]
      exact ⟨.refl, rfl, hdata hsize, hdrop⟩
    · have hchunk : e.chunk entry = none := by
        rw [Env.chunk, ← hfor.getSize, ← hret, if_neg hsize]
      have hbroken : e.Broken entry ↔ ret < 0 := by rw [Env.Broken, ← hfor.getSize, hret]
      simp only [workerStep, ne_eq, hsize, not_false_eq_true, if_true]
      by_cases hneg : ret < 0
      · rw [if_pos hneg]
        exact ⟨⟨fun _ _ => rfl, .inr ⟨hbroken.mpr hneg, rfl⟩, fun _ _ => rfl, fun _ h => h⟩, rfl,
          hchunk, fun _ => Function.update_self _ _ _, hdrop⟩
      · rw [if_neg hneg]
        exact ⟨.refl, rfl, hchunk, fun hb => absurd (hbroken.mp hb) hneg, hdrop⟩
  | dropping o₁ =>
    obtain ⟨rfl, hchunk, hhot, hdrop⟩ := h
    refine ⟨⟨fun _ _ => rfl, .inl rfl, fun o' hne => ?_, fun o' ho' => ?_⟩, hchunk, hhot, ?_⟩
    · show (.refCountDown o₁ :: s.calls).count (.refCountDown o') = _
      rw [List.count_cons_of_ne (by simpa using hne)]
      rfl
    · simpa [workerStep, refCountDown] using ho'
    · show (.refCountDown o₁ :: s.calls).count (.refCountDown o₁) = 1
      rw [List.count_cons_self]
      exact congrArg (· + 1) hdrop
  | done result => exact ⟨.refl, h⟩

/-- A worker that runs without a break does what `get_blocking` has done for it. -/
theorem worker_alone (t : Task Key) (s : State Key) :
    let r := loadBytesFromDiskWithMemory e s t.key t.path t.memoryObj
    let r₁ := workerStep e t s .queued
    let r₂ := workerStep e t r₁.1 r₁.2
    workerStep e t r₂.1 r₂.2 = (r.2, .done r.1) := by
  intro r r₁ r₂
  cases hobj : t.memoryObj with
  | none => simp [r, r₁, r₂, workerStep, loadBytesFromDiskWithMemory, hobj]
  | some o =>
    by_cases hvalid : o.isValid = false
    · simp [r, r₁, r₂, workerStep, loadBytesFromDiskWithMemory, hobj, hvalid]
    · by_cases hsize : (loadObj e s.mem t.path o).1 = o.getSize
      · simp [r, r₁, r₂, workerStep, loadBytesFromDiskWithMemory, hobj, hvalid, hsize]
      · simp [r, r₁, r₂, workerStep, loadBytesFromDiskWithMemory, hobj, hvalid, hsize]

/-- At any time. -/
structure Inv (e : Env) (s : State Key) (keys : List Key) (p : Pool Key) : Prop where
  absent : ∀ i key, (tasksOf e s keys).1[i]? = some ⟨key, none, none⟩ →
    p.phase i = .queued ∨ p.phase i = .done none
  present : ∀ i key entry o, (tasksOf e s keys).1[i]? = some ⟨key, some entry.path, some o⟩ →
    s.hot key = some entry → Progress e p.state key entry o (p.phase i)
  hot : ∀ k, p.state.hot k = s.hot k ∨
    p.state.hot k = none ∧ k ∈ keys ∧ ∃ entry, s.hot k = some entry ∧ e.Broken entry
  allocated : ∀ o, .allocate o ∈ p.state.calls → ∃ t ∈ (tasksOf e s keys).1, t.memoryObj = some o

variable {keys : List Key} {p : Pool Key}

theorem Inv.init (hspec : TasksSpec e s keys (tasksOf e s keys)) (hnew : s.calls = []) :
    Inv e s keys (workers e s keys).init := by
  refine ⟨fun _ _ _ => .inl rfl, fun i key entry o _ _ => ?_, fun k => .inl ?_, fun o ho => ?_⟩
  · show (tasksOf e s keys).2.drops o = 0
    rw [hspec.drops, State.drops, hnew, List.count_nil]
  · exact congrFun hspec.hot k
  · rcases hspec.allocated o ho with hold | hobj
    · rw [hnew] at hold
      cases hold
    · exact hobj

theorem workers_finished_iff :
    (∀ i, ¬ (workers e s keys).possible p i) ↔
      ∀ i < (tasksOf e s keys).1.length, (p.phase i).isDone = true := by
  constructor
  · intro h i hi
    by_contra hnot
    exact h i ⟨hi, Bool.not_eq_true _ ▸ hnot⟩
  · intro h i hi
    have hdone := h i hi.1
    rw [hi.2] at hdone
    cases hdone

theorem workers_step {i : Nat} {t : Task Key} (hi : (tasksOf e s keys).1[i]? = some t) :
    (workers e s keys).step p i = p.set i (workerStep e t p.state (p.phase i)) := by
  simp only [workers, hi]

/-- A step of a worker that has nothing to load. -/
theorem Inv.step_absent (h : Inv e s keys p) {i : Nat}
    (hi : (tasksOf e s keys).1[i]? = some ⟨key, none, none⟩) :
    Inv e s keys (p.set i (workerStep e ⟨key, none, none⟩ p.state (p.phase i))) := by
  have hstep : workerStep e (⟨key, none, none⟩ : Task Key) p.state (p.phase i) =
      (p.state, .done none) := by
    rcases h.absent i key hi with hphase | hphase
    · rw [hphase]
      rfl
    · rw [hphase]
      rfl
  rw [hstep]
  refine ⟨fun j key' hj => ?_, fun j key' entry o hj hentry => ?_, h.hot, h.allocated⟩
  · by_cases hij : j = i
    · rw [hij, p.set_phase_self]
      exact .inr rfl
    · rw [p.set_phase_of_ne hij]
      exact h.absent j key' hj
  · have hij : j ≠ i := by
      rintro rfl
      cases hj.symm.trans hi
    rw [p.set_phase_of_ne hij]
    exact h.present j key' entry o hj hentry

/-- A step of the worker of an entry: the others do not notice. -/
theorem Inv.step_present (hspec : TasksSpec e s keys (tasksOf e s keys)) (h : Inv e s keys p)
    {i : Nat} {r : State Key × Phase}
    (hi : (tasksOf e s keys).1[i]? = some ⟨key, some entry.path, some o⟩)
    (hentry : s.hot key = some entry) (heffect : Effect e key entry o p.state r.1)
    (hprogress : Progress e r.1 key entry o r.2) : Inv e s keys (p.set i r) := by
  refine ⟨fun j key' hj => ?_, fun j key' entry' o' hj hentry' => ?_, fun k => ?_,
    fun o' ho' => h.allocated o' (heffect.allocated o' ho')⟩
  · have hij : j ≠ i := by
      rintro rfl
      cases hj.symm.trans hi
    rw [p.set_phase_of_ne hij]
    exact h.absent j key' hj
  · by_cases hij : j = i
    · subst hij
      have hsame := Option.some.inj (hi.symm.trans hj)
      simp only [Task.mk.injEq, Option.some.injEq] at hsame
      obtain ⟨rfl, -, rfl⟩ := hsame
      obtain rfl := Option.some.inj (hentry.symm.trans hentry')
      rw [p.set_phase_self]
      exact hprogress
    · rw [p.set_phase_of_ne hij]
      obtain ⟨hapart, hne⟩ := hspec.apart_of_ne hi hj (Ne.symm hij) rfl rfl
      exact (h.present j key' entry' o' hj hentry').frame heffect hapart hne
  · show r.1.hot k = s.hot k ∨ r.1.hot k = none ∧ _
    rcases heffect.hot with hsame | ⟨hbroken, hpop⟩
    · rw [hsame]
      exact h.hot k
    · by_cases hk : k = key
      · subst hk
        exact .inr ⟨by rw [hpop, Function.update_self], hspec.mem_keys hi, entry, hentry, hbroken⟩
      · rw [hpop, Function.update_of_ne hk]
        exact h.hot k

/-- A step of a worker. -/
theorem Inv.step (hspec : TasksSpec e s keys (tasksOf e s keys)) (h : Inv e s keys p) {i : Nat}
    (hp : (workers e s keys).possible p i) : Inv e s keys ((workers e s keys).step p i) := by
  obtain ⟨t, hi⟩ : ∃ t, (tasksOf e s keys).1[i]? = some t := ⟨_, List.getElem?_eq_getElem hp.1⟩
  rw [workers_step hi]
  cases hspec.prepared t (List.mem_of_getElem? hi) with
  | absent hkey => exact h.step_absent hi
  | @present key entry o hentry hfor hfits hvalid =>
    obtain ⟨heffect, hprogress⟩ :=
      workerStep_present hfor hfits hvalid (h.present i key entry o hi hentry)
    exact h.step_present hspec hi hentry heffect hprogress

end Workers

/-! ### When all workers are done -/

section Done

variable {Key : Type} {e : Env} {s : State Key} {keys : List Key} {p : Pool Key} {key : Key}
variable {entry : DiskCacheMetadata} {o : MemoryObj}

/-- The outcome of the task of an entry: the object with the data, or none and one drop. -/
theorem Progress.outcome {phase : Phase} (h : Progress e s key entry o phase)
    (hdone : phase.isDone = true) :
    phase.result = some o ∧ some (e.view s.mem o) = e.chunk entry ∧ s.drops o = 0 ∨
      phase.result = none ∧ e.chunk entry = none ∧ (e.Broken entry → s.hot key = none) ∧
        s.drops o = 1 := by
  cases phase with
  | done result =>
    cases result with
    | none => exact .inr ⟨rfl, h⟩
    | some o' =>
      obtain ⟨rfl, hchunk, hdrop⟩ := h
      exact .inl ⟨rfl, hchunk, hdrop⟩
  | _ => cases hdone

theorem Inv.absent_result (h : Inv e s keys p) {i : Nat}
    (hi : (tasksOf e s keys).1[i]? = some ⟨key, none, none⟩) : (p.phase i).result = none := by
  rcases h.absent i key hi with hphase | hphase
  · rw [hphase]
    rfl
  · rw [hphase]
    rfl

variable (hspec : TasksSpec e s keys (tasksOf e s keys)) (h : Inv e s keys p)
variable (hdone : ∀ i < keys.length, (p.phase i).isDone = true)

include hspec h hdone

theorem Inv.result {i : Nat} (hi : keys[i]? = some key) :
    (p.phase i).result.map (e.view p.state.mem) = (s.hot key).bind e.chunk := by
  obtain ⟨hlt, -⟩ := List.getElem?_eq_some_iff.mp hi
  rcases hspec.task hi with ⟨hentry, ht⟩ | ⟨entry, o, hentry, ht⟩
  · rw [h.absent_result ht, hentry]
    rfl
  · rw [hentry, Option.bind_some]
    rcases (h.present i key entry o ht hentry).outcome (hdone i hlt) with
      ⟨hresult, hchunk, -⟩ | ⟨hresult, hchunk, -⟩
    · rw [hresult, ← hchunk]
      rfl
    · rw [hresult, hchunk]
      rfl

theorem Inv.results :
    (p.results keys).map (Option.map (e.view p.state.mem)) =
      keys.map fun k => (s.hot k).bind e.chunk := by
  refine List.ext_getElem (by simp [Pool.results]) fun i hi hi' => ?_
  have hlt : i < keys.length := by simpa using hi'
  simpa [Pool.results] using h.result hspec hdone (List.getElem?_eq_getElem hlt)

theorem Inv.final_hot [DecidableEq Key] : p.state.hot = e.pruned s.hot keys := by
  funext k
  have hk := h.hot k
  unfold Env.pruned
  split
  · next hmem =>
    obtain ⟨i, hlt, hi⟩ := List.mem_iff_getElem.mp hmem
    have hi : keys[i]? = some k := List.getElem?_eq_some_iff.mpr ⟨hlt, hi⟩
    rcases hspec.task hi with ⟨hentry, ht⟩ | ⟨entry, o, hentry, ht⟩
    · rw [hentry] at hk ⊢
      rcases hk with hk | ⟨hk, -⟩
      · exact hk
      · exact hk
    · rw [hentry] at hk ⊢
      by_cases hbroken : e.Broken entry
      · have hgone : p.state.hot k = none := by
          rcases (h.present i k entry o ht hentry).outcome (hdone i hlt) with
            ⟨-, hchunk, -⟩ | ⟨-, -, hhot, -⟩
          · rw [chunk_of_broken hbroken] at hchunk
            cases hchunk
          · exact hhot hbroken
        simp [hgone, Option.filter, hbroken]
      · have hstays : p.state.hot k = some entry := by
          rcases hk with hk | ⟨-, -, entry', hsame, hbroken'⟩
          · exact hk
          · obtain rfl := Option.some.inj hsame
            exact absurd hbroken' hbroken
        simp [hstays, Option.filter, hbroken]
  · next hmem =>
    rcases hk with hk | ⟨-, hkeys, -⟩
    · exact hk
    · exact absurd hkeys hmem

/-- A task returns its own object. -/
theorem Inv.result_own {i : Nat} (hi : i < keys.length) (hresult : (p.phase i).result = some o) :
    ∃ t, (tasksOf e s keys).1[i]? = some t ∧ t.memoryObj = some o := by
  rcases hspec.task (List.getElem?_eq_getElem hi) with ⟨-, ht⟩ | ⟨entry, o', hentry, ht⟩
  · rw [h.absent_result ht] at hresult
    cases hresult
  · refine ⟨_, ht, ?_⟩
    rcases (h.present i _ entry o' ht hentry).outcome (hdone i hi) with ⟨hown, -⟩ | ⟨hown, -⟩
    · exact hown.symm.trans hresult
    · rw [hown] at hresult
      cases hresult

/-- An object that was allocated is returned, or its reference was dropped once. -/
theorem Inv.dropped (ho : .allocate o ∈ p.state.calls) :
    p.state.drops o = if some o ∈ p.results keys then 0 else 1 := by
  obtain ⟨t, htmem, hobj⟩ := h.allocated o ho
  obtain ⟨i, ht⟩ := List.mem_iff_getElem?.mp htmem
  have hlt : i < keys.length := by
    rw [← hspec.length]
    exact (List.getElem?_eq_some_iff.mp ht).1
  obtain ⟨entry, hentry, ht⟩ : ∃ entry, s.hot keys[i] = some entry ∧
      (tasksOf e s keys).1[i]? = some ⟨keys[i], some entry.path, some o⟩ := by
    rcases hspec.task (List.getElem?_eq_getElem hlt) with ⟨-, ht'⟩ | ⟨entry, o', hentry, ht'⟩
    · cases ht.symm.trans ht'
      cases hobj
    · cases ht.symm.trans ht'
      cases hobj
      exact ⟨entry, hentry, ht'⟩
  rcases (h.present i _ entry o ht hentry).outcome (hdone i hlt) with
    ⟨hresult, -, hdrops⟩ | ⟨hresult, -, -, hdrops⟩
  · have hmem : some o ∈ p.results keys :=
      List.mem_map.mpr ⟨i, List.mem_range.mpr hlt, hresult⟩
    rw [hdrops, if_pos hmem]
  · have hnot : some o ∉ p.results keys := by
      intro hmem
      obtain ⟨j, hj, hresult'⟩ := List.mem_map.mp hmem
      obtain ⟨t', ht', hobj'⟩ := h.result_own hspec hdone (List.mem_range.mp hj) hresult'
      have hij : i ≠ j := by
        rintro rfl
        rw [hresult] at hresult'
        cases hresult'
      exact (hspec.apart_of_ne ht ht' hij rfl hobj').2 rfl
    rw [hdrops, if_neg hnot]

end Done

/-! ### All orders -/

section Orders

variable {Key : Type}

/-- The steps that a worker has left, at most. -/
def Phase.left : Phase → Nat
  | .queued => 3
  | .loaded _ _ => 2
  | .dropping _ => 1
  | .done _ => 0

def Pool.left (p : Pool Key) (n : Nat) : Nat := ∑ i ∈ Finset.range n, (p.phase i).left

theorem Pool.left_lt {n i : Nat} (p : Pool Key) (hi : i < n) {r : State Key × Phase}
    (h : r.2.left < (p.phase i).left) : (p.set i r).left n < p.left n := by
  refine Finset.sum_lt_sum (fun j _ => ?_) ⟨i, Finset.mem_range.mpr hi, ?_⟩
  · by_cases hj : j = i
    · rw [hj, p.set_phase_self]
      exact Nat.le_of_lt h
    · rw [p.set_phase_of_ne hj]
  · rwa [p.set_phase_self]

variable [DecidableEq Key]

theorem workerStep_left (e : Env) (t : Task Key) (s : State Key) {phase : Phase}
    (h : phase.isDone = false) : (workerStep e t s phase).2.left < phase.left := by
  cases phase with
  | queued =>
    simp only [workerStep]
    split
    · exact Nat.zero_lt_succ _
    · split
      · exact Nat.zero_lt_succ _
      · exact Nat.lt_succ_self _
  | loaded o ret =>
    simp only [workerStep]
    split
    · exact Nat.lt_succ_self _
    · exact Nat.zero_lt_succ _
  | dropping o => exact Nat.lt_succ_self _
  | done result => cases h

/-- The backend when the keys are asked for. -/
def start (hot : Key → Option DiskCacheMetadata) (mem : Nat → UInt8) : State Key := ⟨hot, mem, []⟩

/-- The batch gives what getting the keys one by one gives. -/
structure AsOneByOne (e : Env) (s : State Key) (keys : List Key) (p : Pool Key) : Prop where
  length : (p.results keys).length = keys.length
  /-- None at the same places, elsewhere the same shape, dtype, format and bytes -/
  same : (p.results keys).map (Option.map (e.view p.state.mem)) =
    (getAll e s keys).1.map (Option.map (e.view (getAll e s keys).2.mem))
  /-- also if a key is got alone -/
  alone : ∀ (i : Nat) (key : Key), keys[i]? = some key → Serves e s [key] →
    (p.results keys)[i]?.map (Option.map (e.view p.state.mem)) =
      some ((getBlocking e s key).1.map (e.view (getBlocking e s key).2.mem))
  hot : p.state.hot = (getAll e s keys).2.hot
  dropped : ∀ o, .allocate o ∈ p.state.calls →
    p.state.drops o = if some o ∈ p.results keys then 0 else 1

/-- For every index, every memory and every order of the workers: they come to an end, and then
the batch has given what getting the keys one by one gives. -/
theorem batch_one_by_one (e : Env) (hot : Key → Option DiskCacheMetadata) (mem : Nat → UInt8)
    (keys : List Key) (hbatch : ∀ t ∈ (tasksOf e (start hot mem) keys).1, t.Served)
    (hserves : Serves e (start hot mem) keys) (order : List Nat)
    (hp : (workers e (start hot mem) keys).Along (workers e (start hot mem) keys).possible
      (workers e (start hot mem) keys).init order) :
    order.length ≤ 3 * keys.length ∧
      ((∀ i, ¬ (workers e (start hot mem) keys).possible
          ((workers e (start hot mem) keys).after (workers e (start hot mem) keys).init order) i) →
        AsOneByOne e (start hot mem) keys
          ((workers e (start hot mem) keys).after (workers e (start hot mem) keys).init
            order)) := by
  have hspec := tasksOf_prepared hbatch
  constructor
  · have hbound := hp.length_le (m := fun p => p.left keys.length) fun p i hi => by
      rw [workers_step (List.getElem?_eq_getElem hi.1)]
      exact p.left_lt (hspec.length ▸ hi.1) (workerStep_left _ _ _ hi.2)
    have hinit : (workers e (start hot mem) keys).init.left keys.length = 3 * keys.length := by
      simp [Pool.left, workers, Phase.left, Nat.mul_comm]
    omega
  · intro hend
    obtain ⟨p, hp'⟩ : ∃ p, p = (workers e (start hot mem) keys).after
        (workers e (start hot mem) keys).init order := ⟨_, rfl⟩
    have hinv : Inv e (start hot mem) keys p := by
      rw [hp']
      exact System.after_along (Inv.init hspec rfl) (fun _ _ h hi => h.step hspec hi) hp
    rw [← hp'] at hend ⊢
    have hdone : ∀ i < keys.length, (p.phase i).isDone = true :=
      hspec.length ▸ workers_finished_iff.mp hend
    obtain ⟨hall, hhot, -⟩ := getAll_spec hserves
    refine ⟨by simp [Pool.results], ?_, fun i key hi halone => ?_, ?_,
      fun o ho => hinv.dropped hspec hdone ho⟩
    · rw [hinv.results hspec hdone, hall]
    · rw [(getBlocking_spec halone).result, ← List.getElem?_map, hinv.results hspec hdone,
        List.getElem?_map, hi]
      rfl
    · rw [hinv.final_hot hspec hdone, hhot]

end Orders

/-! ### A batch -/

/-- Behind the objects in use. -/
def bumpAddress (calls : List Call) : Nat :=
  (inUse calls).foldr (fun o n => max (o.address + o.getSize) n) 0

theorem le_bumpAddress {calls : List Call} {o : MemoryObj} (h : o ∈ inUse calls) :
    o.address + o.getSize ≤ bumpAddress calls := by
  unfold bumpAddress
  generalize inUse calls = os at h
  induction os with
  | nil => cases h
  | cons o' os ih =>
    rcases List.mem_cons.mp h with rfl | h
    · exact Nat.le_max_left _ _
    · exact Nat.le_trans (ih h) (Nat.le_max_right _ _)

/-- An allocator for the first of two regions. -/
def bumpAllocator : Allocator where
  basePointer := 1048576
  place calls shape dtype _ :=
    if 0 < shape.prod * dtype.itemsize ∧
        bumpAddress calls + shape.prod * dtype.itemsize ≤ 4194304 then
      some (bumpAddress calls, true)
    else none
  notNull := by decide
  fits calls shape dtype fmt address valid h := by
    obtain ⟨hfits, heq⟩ := Option.ite_none_right_eq_some.mp h
    cases heq
    omega
  apart calls shape dtype fmt address valid h o ho := by
    obtain ⟨-, heq⟩ := Option.ite_none_right_eq_some.mp h
    cases heq
    exact .inl (le_bumpAddress ho)

theorem bumpAllocator_accepted (calls : List Call) (shape : List Nat) (dtype : Dtype)
    (fmt : MemoryFormat) (address : Nat) (valid : Bool)
    (h : bumpAllocator.place calls shape dtype fmt = some (address, valid)) :
    ∃ nd, acceptedBy twoRegions.head .read bumpAllocator.basePointer
      (shape.prod * dtype.itemsize) address = some nd ∧
        nd.gpuAddr = bumpAllocator.basePointer := by
  obtain ⟨⟨hpos, hfits⟩, heq⟩ := Option.ite_none_right_eq_some.mp h
  cases heq
  refine ⟨oneSegment 1 4294967296 1048576 4194304, acceptedBy_inside twoRegions.toOpenDevice
    List.mem_cons_self .read hpos hfits (Nat.le_refl _) ?_, rfl⟩
  show 1048576 + shape.prod * dtype.itemsize ≤ 1048576 + 4194304
  omega

/-- The library serves all objects of the allocator. -/
theorem bumpAllocator_registered (_ : some Transport.fgds = some .fgds) : true = true ∧
    ∀ calls shape dtype fmt address valid,
      bumpAllocator.place calls shape dtype fmt = some (address, valid) →
        ∃ nd, acceptedBy twoRegions.head .read bumpAllocator.basePointer
          (shape.prod * dtype.itemsize) address = some nd ∧
            nd.gpuAddr = bumpAllocator.basePointer :=
  ⟨rfl, bumpAllocator_accepted⟩

/-- Two bytes in one file, one of two in another, and a file that cannot be opened. -/
def threeFiles : Env where
  alloc := bumpAllocator
  hasBasePointer := true
  fs path :=
    if path = "whole".toList then some (List.replicate 4096 0 ++ [7, 8])
    else if path = "short".toList then some (List.replicate 4096 0 ++ [7])
    else none
  transport := some .fgds
  regions := twoRegions.head
  registered := bumpAllocator_registered

def threeEntries (key : Nat) : Option DiskCacheMetadata :=
  match key with
  | 1 => some ⟨"whole".toList, 2, [2], .uint8, 1⟩
  | 2 => some ⟨"short".toList, 2, [2], .uint8, 1⟩
  | 3 => some ⟨"missing".toList, 2, [2], .uint8, 1⟩
  | _ => none

/-- Repeated and missing keys, and workers that overtake each other. -/
theorem batch_one_by_one_three :
    let s := start threeEntries fun _ => 0
    let keys := [3, 1, 9, 3, 2]
    let order := [4, 3, 0, 1, 0, 3, 4, 2, 3, 1, 0, 4]
    AsOneByOne threeFiles s keys
      ((workers threeFiles s keys).after (workers threeFiles s keys).init order) := by
  intro s keys order
  refine (batch_one_by_one threeFiles threeEntries (fun _ => 0) keys ?_ ?_ order ?_).2 ?_
  · decide +kernel
  · decide +kernel
  · decide +kernel
  · rw [workers_finished_iff]
    decide +kernel

end Fgds.Backend.Gets
