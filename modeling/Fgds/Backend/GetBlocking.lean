import Fgds.Backend.SaveLoad

/-!
# Getting chunks one by one

`get_blocking` looks a key up, allocates an object and loads the file into it; a load that fails
takes its key out of `hot_cache` and drops its object. Files do not change.

* `loadObj_spec`: what a load does, wherever the object is;
* `getBlocking_spec`: what a get returns, what it keeps, and what becomes of the index;
* `getAll_spec`: several gets, one after the other.
-/

namespace Fgds.Backend.Gets

open Fgds.Lib.CInt Fgds.Device

/-! ## Objects -/

/-- A memory object: the number of its allocation, its place in the buffer, and its metadata. -/
structure MemoryObj where
  id : Nat
  address : Nat
  shape : List Nat
  dtype : Dtype
  fmt : MemoryFormat
  isValid : Bool
  deriving DecidableEq

def MemoryObj.getSize (o : MemoryObj) : Nat := o.shape.prod * o.dtype.itemsize

def MemoryObj.Apart (o o' : MemoryObj) : Prop :=
  o.address + o.getSize ≤ o'.address ∨ o'.address + o'.getSize ≤ o.address

theorem MemoryObj.Apart.symm {o o' : MemoryObj} (h : o.Apart o') : o'.Apart o := Or.symm h

inductive Call where
  | allocate (o : MemoryObj)
  | refCountDown (o : MemoryObj)
  deriving DecidableEq

/-- The objects in use after these calls, of which the last one comes first. -/
def inUse : List Call → List MemoryObj
  | [] => []
  | .allocate o :: calls => o :: inUse calls
  | .refCountDown o :: calls => (inUse calls).erase o

/-- The allocator: where it puts an object after these calls, and whether the object is valid, or
none if it has run out. Objects in use are apart. -/
structure Allocator where
  basePointer : Nat
  place : List Call → List Nat → Dtype → MemoryFormat → Option (Nat × Bool)
  notNull : 0 < basePointer
  fits : ∀ calls shape dtype fmt address valid,
    place calls shape dtype fmt = some (address, valid) →
      basePointer + address + shape.prod * dtype.itemsize < 2 ^ 64
  apart : ∀ calls shape dtype fmt address valid,
    place calls shape dtype fmt = some (address, valid) →
      ∀ o ∈ inUse calls, o.Apart ⟨calls.length, address, shape, dtype, fmt, valid⟩

/-- What does not change: the allocator, whether it has the attribute `base_pointer`, what can be
read of each file (none if it cannot be opened or read), the transport, and the regions registered
with the library. If the library is used then the allocator is the one that has registered its
buffer, and the library accepts the objects in it. -/
structure Env where
  alloc : Allocator
  hasBasePointer : Bool
  fs : Str → Option Bytes
  transport : Option Transport
  regions : List MmapNode
  registered : transport = some .fgds → hasBasePointer = true ∧
    ∀ calls shape dtype fmt address valid,
      alloc.place calls shape dtype fmt = some (address, valid) →
        ∃ nd, acceptedBy regions .read alloc.basePointer (shape.prod * dtype.itemsize) address =
          some nd ∧ nd.gpuAddr = alloc.basePointer

def Env.fgdsBasePointer (e : Env) : Option Nat :=
  if e.hasBasePointer then some e.alloc.basePointer else none

/-- `hot_cache`, the memory of the GPU, and the calls of the allocator. -/
structure State (Key : Type) where
  hot : Key → Option DiskCacheMetadata
  mem : Nat → UInt8
  calls : List Call

/-! ## One key -/

section Get

variable {Key : Type} [DecidableEq Key] (e : Env)

/-- `memory_allocator.allocate` -/
def allocate (s : State Key) (shape : List Nat) (dtype : Dtype) (fmt : MemoryFormat) :
    Option MemoryObj × State Key :=
  match e.alloc.place s.calls shape dtype fmt with
  | none => (none, s)
  | some (address, valid) =>
    let o : MemoryObj := ⟨s.calls.length, address, shape, dtype, fmt, valid⟩
    (some o, { s with calls := .allocate o :: s.calls })

def refCountDown (s : State Key) (o : MemoryObj) : State Key :=
  { s with calls := .refCountDown o :: s.calls }

/-- `hot_cache.pop(key, None)` -/
def pop (s : State Key) (key : Key) : State Key :=
  { s with hot := Function.update s.hot key none }

/-- `_load_gds`: what cannot be opened or read is an exception, that is, -1. -/
def loadGds (mem : Nat → UInt8) (filePath : Option Str)
    (fileOffset gpuPointer sizeInBytes devOffset : Nat) : Int × (Nat → UInt8) :=
  match filePath.bind e.fs with
  | none => (-1, mem)
  | some file =>
    Backend.loadGds e.regions e.transport mem file fileOffset gpuPointer sizeInBytes devOffset

/-- The address of `memory_obj.tensor`. -/
def Env.dataPtr (e : Env) (o : MemoryObj) : Nat := e.alloc.basePointer + o.address

/-- The call of `_load_gds` for an object. -/
def loadObj (mem : Nat → UInt8) (path : Option Str) (o : MemoryObj) : Int × (Nat → UInt8) :=
  loadGds e mem path metadataMaxSize (transferAddr e.fgdsBasePointer (e.dataPtr o)) o.getSize
    (transferOffset e.fgdsBasePointer o.address)

/-- `_load_bytes_from_disk_with_memory` -/
def loadBytesFromDiskWithMemory (s : State Key) (key : Key) (path : Option Str)
    (memoryObj : Option MemoryObj) : Option MemoryObj × State Key :=
  match memoryObj with
  | none => (none, s)
  | some o =>
    if o.isValid = false then (none, s)
    else
      let (ret, mem) := loadObj e s.mem path o
      let s := { s with mem }
      if ret ≠ o.getSize then
        (none, refCountDown (if ret < 0 then pop s key else s) o)
      else (some o, s)

/-- `_load_bytes_from_disk_with_allocation` -/
def loadBytesFromDiskWithAllocation (s : State Key) (key : Key) (path : Str) (dtype : Dtype)
    (shape : List Nat) (fmt : MemoryFormat) : Option MemoryObj × State Key :=
  match allocate e s shape dtype fmt with
  | (none, s) => (none, s)
  | (some o, s) => loadBytesFromDiskWithMemory e s key (some path) (some o)

def getBlocking (s : State Key) (key : Key) : Option MemoryObj × State Key :=
  match s.hot key with
  | none => (none, s)
  | some entry =>
    loadBytesFromDiskWithAllocation e s key entry.path entry.dtype entry.shape entry.fmt

/-- `get_blocking` on the keys in order. -/
def getAll (s : State Key) : List Key → List (Option MemoryObj) × State Key
  | [] => ([], s)
  | key :: keys =>
    let (o, s) := getBlocking e s key
    let (os, s) := getAll s keys
    (o :: os, s)

/-- The allocator does not run out, and its objects are valid, as long as the keys are got one by
one. -/
def Serves (s : State Key) : List Key → Prop
  | [] => True
  | key :: keys =>
    (∀ entry ∈ s.hot key,
      ∃ o ∈ (allocate e s entry.shape entry.dtype entry.fmt).1, o.isValid = true) ∧
    Serves (getBlocking e s key).2 keys

instance decidableServes : ∀ (s : State Key) (keys : List Key), Decidable (Serves e s keys)
  | _, [] => isTrue trivial
  | s, key :: keys =>
    have := decidableServes (getBlocking e s key).2 keys
    inferInstanceAs (Decidable (_ ∧ _))

/-! ### What a load gives -/

/-- The size that the object for an entry has. -/
def entrySize (entry : DiskCacheMetadata) : Nat := entry.shape.prod * entry.dtype.itemsize

/-- What `_load_gds` returns for `size` bytes. -/
def Env.ret (e : Env) (path : Str) (size : Nat) : Int :=
  match e.fs path, e.transport with
  | none, _ => -1
  | some _, none => -1
  | some file, some .fgds => ((file.drop metadataMaxSize).take size).length
  | some file, some .gpuMemcpy => if file.length < metadataMaxSize + size then -1 else size

/-- The bytes of a file behind its header. -/
def Env.data (e : Env) (path : Str) (size : Nat) : Bytes :=
  match e.fs path with
  | none => []
  | some file => (file.drop metadataMaxSize).take size

/-- What the caller sees of an object. -/
structure View where
  shape : List Nat
  dtype : Dtype
  fmt : MemoryFormat
  bytes : Bytes
  deriving DecidableEq

def Env.view (e : Env) (mem : Nat → UInt8) (o : MemoryObj) : View :=
  ⟨o.shape, o.dtype, o.fmt, bytesAt mem (e.dataPtr o) o.getSize⟩

/-- The chunk that an entry leads to. -/
def Env.chunk (e : Env) (entry : DiskCacheMetadata) : Option View :=
  if e.ret entry.path (entrySize entry) = entrySize entry then
    some ⟨entry.shape, entry.dtype, entry.fmt, e.data entry.path (entrySize entry)⟩
  else none

/-- Loads of the entry fail with a negative value. -/
def Env.Broken (e : Env) (entry : DiskCacheMetadata) : Prop :=
  e.ret entry.path (entrySize entry) < 0

instance (entry : DiskCacheMetadata) : Decidable (e.Broken entry) :=
  inferInstanceAs (Decidable (_ < _))

/-- The index without the broken entries of these keys. -/
def Env.pruned (e : Env) (hot : Key → Option DiskCacheMetadata) (keys : List Key) :
    Key → Option DiskCacheMetadata := fun k =>
  if k ∈ keys then (hot k).filter fun entry => ¬ e.Broken entry else hot k

/-- The object is where the allocator may have put it. -/
def Env.Fits (e : Env) (o : MemoryObj) : Prop :=
  e.dataPtr o + o.getSize < 2 ^ 64 ∧
    (e.transport = some .fgds →
      ∃ nd, acceptedBy e.regions .read e.alloc.basePointer o.getSize o.address = some nd ∧
        nd.gpuAddr = e.alloc.basePointer)

/-- The object was allocated for the entry. -/
def MemoryObj.For (o : MemoryObj) (entry : DiskCacheMetadata) : Prop :=
  o.shape = entry.shape ∧ o.dtype = entry.dtype ∧ o.fmt = entry.fmt

end Get

section Load

variable {e : Env} {o o' : MemoryObj}

theorem MemoryObj.For.getSize {entry : DiskCacheMetadata} (h : o.For entry) :
    o.getSize = entrySize entry := by
  rw [MemoryObj.getSize, entrySize, h.1, h.2.1]

theorem cVoidP_of_lt {n : Nat} (h : n < 2 ^ 64) : cVoidP n = n := Nat.mod_eq_of_lt h

/-- Both ways to name the destination lead to the object. -/
theorem transfer_dest (h : e.Fits o) :
    0 < transferAddr e.fgdsBasePointer (e.dataPtr o) ∧
      transferAddr e.fgdsBasePointer (e.dataPtr o) + transferOffset e.fgdsBasePointer o.address =
        e.dataPtr o := by
  have hlt : e.dataPtr o < 2 ^ 64 := Nat.lt_of_le_of_lt (Nat.le_add_right _ _) h.1
  have hnull := e.alloc.notNull
  unfold Env.fgdsBasePointer
  cases e.hasBasePointer with
  | false =>
    show 0 < cVoidP (e.dataPtr o) ∧ cVoidP (e.dataPtr o) + 0 = e.dataPtr o
    rw [cVoidP_of_lt hlt]
    exact ⟨Nat.lt_of_lt_of_le hnull (Nat.le_add_right _ _), rfl⟩
  | true =>
    show 0 < cVoidP e.alloc.basePointer ∧ cVoidP e.alloc.basePointer + o.address = e.dataPtr o
    rw [cVoidP_of_lt (Nat.lt_of_le_of_lt (Nat.le_add_right _ _) hlt)]
    exact ⟨hnull, rfl⟩

/-- The library finds the object as well. -/
theorem fgdsFileRead_obj (h : e.Fits o) (hfgds : e.transport = some .fgds) (mem : Nat → UInt8)
    (file : Bytes) :
    fgdsFileRead e.regions mem file (transferAddr e.fgdsBasePointer (e.dataPtr o)) o.getSize
        metadataMaxSize (transferOffset e.fgdsBasePointer o.address) =
      some ((((file.drop metadataMaxSize).take o.getSize).length : Int),
        storeAt mem (e.dataPtr o) ((file.drop metadataMaxSize).take o.getSize)) := by
  obtain ⟨nd, hnd, hstart⟩ := h.2 hfgds
  have hbase : e.fgdsBasePointer = some e.alloc.basePointer := if_pos (e.registered hfgds).1
  have hlt : e.alloc.basePointer < 2 ^ 64 := by
    have hobj := h.1
    unfold Env.dataPtr at hobj
    omega
  rw [hbase, transferAddr, transferOffset, cVoidP_of_lt hlt, fgdsFileRead, hnd, Option.map_some,
    hstart, Env.dataPtr]

theorem data_length_le (e : Env) (path : Str) (size : Nat) : (e.data path size).length ≤ size := by
  unfold Env.data
  cases e.fs path with
  | none => exact Nat.zero_le _
  | some file => exact List.length_take_le _ _

/-- A load stores the data in the object, or does nothing and returns -1. -/
theorem loadObj_cases (mem : Nat → UInt8) (path : Str) (h : e.Fits o) :
    loadObj e mem (some path) o = (-1, mem) ∧ e.ret path o.getSize = -1 ∨
      loadObj e mem (some path) o =
          (e.ret path o.getSize, storeAt mem (e.dataPtr o) (e.data path o.getSize)) ∧
        e.ret path o.getSize = (e.data path o.getSize).length := by
  obtain ⟨hpos, hdest⟩ := transfer_dest h
  have hlt : e.dataPtr o < 2 ^ 64 := Nat.lt_of_le_of_lt (Nat.le_add_right _ _) h.1
  unfold loadObj loadGds Env.ret Env.data
  rw [Option.bind_some]
  cases e.fs path with
  | none => exact .inl ⟨rfl, rfl⟩
  | some file =>
    rcases htransport : e.transport with _ | _ | _
    · exact .inl ⟨rfl, rfl⟩
    · right
      simp only [Backend.loadGds, fgdsFileRead_obj h htransport, Option.getD_some, and_self]
    · by_cases hshort : file.length < metadataMaxSize + o.getSize
      · left
        simp only [Backend.loadGds, hshort, if_true, and_self]
      · right
        have hvalue : pointerValue (transferAddr e.fgdsBasePointer (e.dataPtr o)) =
            some (transferAddr e.fgdsBasePointer (e.dataPtr o)) := if_neg hpos.ne'
        have hlen : ((file.drop metadataMaxSize).take o.getSize).length = o.getSize := by
          rw [List.length_take, List.length_drop]
          omega
        simp only [Backend.loadGds, hshort, if_false, hvalue, hdest, cVoidP_of_lt hlt, hlen,
          and_self]

/-- A load returns what it returns for any other object of the size, and changes this one only;
a complete one leaves the data there. -/
theorem loadObj_spec (mem : Nat → UInt8) (path : Str) (h : e.Fits o) :
    (loadObj e mem (some path) o).1 = e.ret path o.getSize ∧
      (∀ o', o.Apart o' → e.view (loadObj e mem (some path) o).2 o' = e.view mem o') ∧
      (e.ret path o.getSize = o.getSize →
        bytesAt (loadObj e mem (some path) o).2 (e.dataPtr o) o.getSize =
          e.data path o.getSize) := by
  rcases loadObj_cases mem path h with ⟨hload, hret⟩ | ⟨hload, hret⟩
  · rw [hload, hret]
    exact ⟨rfl, fun _ _ => rfl, fun hsize => by omega⟩
  · rw [hload]
    refine ⟨rfl, fun o' hapart => ?_, fun hsize => ?_⟩
    · have hbytes : bytesAt (storeAt mem (e.dataPtr o) (e.data path o.getSize)) (e.dataPtr o')
          o'.getSize = bytesAt mem (e.dataPtr o') o'.getSize := by
        refine List.map_congr_left fun k hk => if_neg ?_
        have hk := List.mem_range.mp hk
        have hle := data_length_le e path o.getSize
        unfold MemoryObj.Apart at hapart
        unfold Env.dataPtr
        omega
      rw [Env.view, hbytes, Env.view]
    · have hlen : (e.data path o.getSize).length = o.getSize := by
        rw [hret] at hsize
        exact_mod_cast hsize
      have hstore := bytesAt_storeAt mem (e.dataPtr o) (e.data path o.getSize)
      rwa [hlen] at hstore

/-- What `allocate` returns, if anything. -/
theorem allocate_some {Key : Type} {s : State Key} {shape : List Nat} {dtype : Dtype}
    {fmt : MemoryFormat} (h : (allocate e s shape dtype fmt).1 = some o) :
    (allocate e s shape dtype fmt).2 = { s with calls := .allocate o :: s.calls } ∧
      o.id = s.calls.length ∧ e.Fits o ∧ o.shape = shape ∧ o.dtype = dtype ∧ o.fmt = fmt ∧
      ∀ o' ∈ inUse s.calls, o'.Apart o := by
  cases hplace : e.alloc.place s.calls shape dtype fmt with
  | none => simp [allocate, hplace] at h
  | some placed =>
    obtain ⟨address, valid⟩ := placed
    simp only [allocate, hplace, Option.some.injEq] at h ⊢
    subst h
    exact ⟨rfl, rfl, ⟨e.alloc.fits _ _ _ _ _ _ hplace,
        fun hfgds => (e.registered hfgds).2 _ _ _ _ _ _ hplace⟩, rfl, rfl, rfl,
      e.alloc.apart _ _ _ _ _ _ hplace⟩

end Load

/-! ## The keys one by one -/

section OneByOne

variable {Key : Type} [DecidableEq Key] {e : Env} {s : State Key} {o : MemoryObj}

theorem chunk_of_broken {entry : DiskCacheMetadata} (h : e.Broken entry) :
    e.chunk entry = none := by
  unfold Env.Broken at h
  exact if_neg (by omega)

theorem pruned_bind (hot : Key → Option DiskCacheMetadata) (keys : List Key) (k : Key) :
    (e.pruned hot keys k).bind e.chunk = (hot k).bind e.chunk := by
  unfold Env.pruned
  split
  · cases hot k with
    | none => rfl
    | some entry =>
      by_cases hbroken : e.Broken entry
      · simp [Option.filter, hbroken, chunk_of_broken hbroken]
      · simp [Option.filter, hbroken]
  · rfl

theorem pruned_cons (hot : Key → Option DiskCacheMetadata) (key : Key) (keys : List Key) :
    e.pruned (e.pruned hot [key]) keys = e.pruned hot (key :: keys) := by
  funext k
  by_cases hkey : k = key
  · cases hot k with
    | none => simp [Env.pruned, hkey]
    | some entry => by_cases hk : k ∈ keys <;> simp [Env.pruned, hkey, hkey ▸ hk]
  · simp [Env.pruned, hkey]

theorem pruned_absent {hot : Key → Option DiskCacheMetadata} {key : Key} (h : hot key = none) :
    e.pruned hot [key] = hot := by
  funext k
  by_cases hk : k = key
  · simp [Env.pruned, hk, h]
  · simp [Env.pruned, hk]

theorem pruned_loadable {hot : Key → Option DiskCacheMetadata} {key : Key}
    {entry : DiskCacheMetadata} (hentry : hot key = some entry) (h : ¬ e.Broken entry) :
    e.pruned hot [key] = hot := by
  funext k
  by_cases hk : k = key
  · simp [Env.pruned, hk, hentry, Option.filter, h]
  · simp [Env.pruned, hk]

theorem pruned_broken {hot : Key → Option DiskCacheMetadata} {key : Key}
    {entry : DiskCacheMetadata} (hentry : hot key = some entry) (h : e.Broken entry) :
    e.pruned hot [key] = Function.update hot key none := by
  funext k
  by_cases hk : k = key
  · simp [Env.pruned, hk, hentry, Option.filter, h]
  · simp [Env.pruned, hk]

/-- The view of an object that holds the data of its entry. -/
theorem view_eq_chunk {entry : DiskCacheMetadata} {mem : Nat → UInt8} (hfor : o.For entry)
    (hret : e.ret entry.path o.getSize = o.getSize)
    (hbytes : bytesAt mem (e.dataPtr o) o.getSize = e.data entry.path o.getSize) :
    some (e.view mem o) = e.chunk entry := by
  rw [hfor.getSize] at hret
  rw [Env.chunk, if_pos hret, Env.view, hbytes, hfor.getSize, hfor.1, hfor.2.1, hfor.2.2]

/-- What `get_blocking` gives, keeps and takes out of the index. -/
structure GetSpec (e : Env) (s : State Key) (key : Key) (r : Option MemoryObj × State Key) :
    Prop where
  result : r.1.map (e.view r.2.mem) = (s.hot key).bind e.chunk
  returned : ∀ o ∈ r.1, o ∈ inUse r.2.calls
  keeps : ∀ o ∈ inUse s.calls, o ∈ inUse r.2.calls ∧ e.view r.2.mem o = e.view s.mem o
  hot : r.2.hot = e.pruned s.hot [key]

/-- A get of an entry, once the object has been allocated. -/
theorem getBlocking_present {k : Key} {entry : DiskCacheMetadata} (hentry : s.hot k = some entry)
    (halloc : (allocate e s entry.shape entry.dtype entry.fmt).1 = some o)
    (hvalid : o.isValid = true) :
    getBlocking e s k =
      let s₁ : State Key :=
        ⟨s.hot, (loadObj e s.mem (some entry.path) o).2, .allocate o :: s.calls⟩
      if e.ret entry.path o.getSize ≠ o.getSize then
        (none, refCountDown (if e.ret entry.path o.getSize < 0 then pop s₁ k else s₁) o)
      else (some o, s₁) := by
  obtain ⟨hstate, -, hfits, -⟩ := allocate_some halloc
  have hpair : allocate e s entry.shape entry.dtype entry.fmt =
      (some o, { s with calls := .allocate o :: s.calls }) := Prod.ext halloc hstate
  simp only [getBlocking, hentry, loadBytesFromDiskWithAllocation, hpair,
    loadBytesFromDiskWithMemory, hvalid, (loadObj_spec s.mem entry.path hfits).1,
    Bool.true_eq_false, if_false]

theorem getBlocking_spec {k : Key} (hserves : Serves e s [k]) :
    GetSpec e s k (getBlocking e s k) := by
  cases hentry : s.hot k with
  | none =>
    have hget : getBlocking e s k = (none, s) := by simp [getBlocking, hentry]
    rw [hget]
    exact ⟨by simp [hentry], nofun, fun o ho => ⟨ho, rfl⟩, (pruned_absent hentry).symm⟩
  | some entry =>
    obtain ⟨o, halloc, hvalid⟩ := hserves.1 entry hentry
    obtain ⟨-, -, hfits, hshape, hdtype, hfmt, hapart⟩ := allocate_some halloc
    obtain ⟨-, hframe, hdata⟩ := loadObj_spec s.mem entry.path hfits
    have hfor : o.For entry := ⟨hshape, hdtype, hfmt⟩
    have hkeep : ∀ o' ∈ inUse s.calls,
        e.view (loadObj e s.mem (some entry.path) o).2 o' = e.view s.mem o' :=
      fun o' ho' => hframe o' (hapart o' ho').symm
    have hbroken : e.Broken entry ↔ e.ret entry.path o.getSize < 0 := by
      rw [Env.Broken, ← hfor.getSize]
    rw [getBlocking_present hentry halloc hvalid]
    dsimp only
    by_cases hsize : e.ret entry.path o.getSize = o.getSize
    · rw [if_neg (not_not.mpr hsize)]
      refine ⟨?_, ?_, fun o' ho' => ⟨List.mem_cons_of_mem _ ho', hkeep o' ho'⟩, ?_⟩
      · rw [hentry]
        exact view_eq_chunk hfor hsize (hdata hsize)
      · intro o' ho'
        obtain rfl := Option.some.inj ho'
        exact List.mem_cons_self
      · exact (pruned_loadable hentry (by rw [hbroken]; omega)).symm
    · rw [if_pos hsize]
      have hnone : (s.hot k).bind e.chunk = none := by
        rw [hentry, Option.bind_some, Env.chunk, ← hfor.getSize, if_neg hsize]
      -- the object was allocated last, so dropping it leaves what was in use
      by_cases hneg : e.ret entry.path o.getSize < 0
      · rw [if_pos hneg]
        refine ⟨hnone.symm, nofun, fun o' ho' => ⟨?_, hkeep o' ho'⟩, ?_⟩
        · simpa [refCountDown, pop, inUse] using ho'
        · exact (pruned_broken hentry (hbroken.mpr hneg)).symm
      · rw [if_neg hneg]
        refine ⟨hnone.symm, nofun, fun o' ho' => ⟨?_, hkeep o' ho'⟩, ?_⟩
        · simpa [refCountDown, inUse] using ho'
        · exact (pruned_loadable hentry (by rwa [hbroken])).symm

theorem getAll_cons (key : Key) (keys : List Key) :
    getAll e s (key :: keys) =
      ((getBlocking e s key).1 :: (getAll e (getBlocking e s key).2 keys).1,
        (getAll e (getBlocking e s key).2 keys).2) := rfl

/-- Getting the keys one by one gives the chunks that the index leads to at the start. -/
theorem getAll_spec {keys : List Key} (hserves : Serves e s keys) :
    (getAll e s keys).1.map (Option.map (e.view (getAll e s keys).2.mem)) =
        keys.map (fun k => (s.hot k).bind e.chunk) ∧
      (getAll e s keys).2.hot = e.pruned s.hot keys ∧
      ∀ o ∈ inUse s.calls, e.view (getAll e s keys).2.mem o = e.view s.mem o := by
  induction keys generalizing s with
  | nil => exact ⟨rfl, by funext k; simp [getAll, Env.pruned], fun _ _ => rfl⟩
  | cons key keys ih =>
    have hget := getBlocking_spec (e := e) (s := s) (k := key) ⟨hserves.1, trivial⟩
    obtain ⟨hrest, hhot, hkeep⟩ := ih hserves.2
    rw [hget.hot] at hrest hhot
    rw [getAll_cons]
    dsimp only
    refine ⟨?_, hhot.trans (pruned_cons _ _ _), fun o ho => ?_⟩
    · rw [List.map_cons, List.map_cons, hrest, ← hget.result]
      -- an object that was returned is in use, so the later loads keep it
      have hhead : (getBlocking e s key).1.map
            (e.view (getAll e (getBlocking e s key).2 keys).2.mem) =
          (getBlocking e s key).1.map (e.view (getBlocking e s key).2.mem) := by
        cases hresult : (getBlocking e s key).1 with
        | none => rfl
        | some o => exact congrArg some (hkeep o (hget.returned o hresult))
      rw [hhead]
      exact congrArg _ (List.map_congr_left fun k _ => pruned_bind _ _ k)
    · obtain ⟨huse, hview⟩ := hget.keeps o ho
      exact (hkeep o huse).trans hview

end OneByOne

end Fgds.Backend.Gets
