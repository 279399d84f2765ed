import Fgds.KernelMap
import Fgds.Lib.Alloc

/-!
# Who owns what in the kernel

`module/fgds-mem.c` again, now with pointers: every allocation is an object of its own, and
the mmap buffer, `struct p2p_vmap` and `struct gpu_region` hold pointers to others. The page
table that `nvidia_p2p_get_pages` returns stands for the pinned GPU pages; the driver keeps
the pointer to the `p2p_vmap` that it was given as callback data. `nvidia_p2p_put_pages` and
`kfree` are both recorded as the release of an object.

* `fgdsMapDevAddrInner`, with what the label `out` frees at each failure point;
* `fgdsReleaseCore`, which both the driver's callback and UNMAP run;
* `fgdsMapDevAddrInner_agrees`: the values are those of the model without pointers.
-/

namespace Fgds.KernelHeap

open Fgds.Lib.CInt Fgds.Lib.Alloc Fgds.Device Fgds.Remap
open Fgds.KernelMap hiding fgdsMapDevAddrInner fgdsMapDevAddr mapOut

inductive Kind where
  | mbuffer
  | devPageAddrs
  | ppages
  | vmap
  | region
  | table
  deriving DecidableEq, Repr

/-- The objects that a MAP shares with the driver. -/
def Kind.isDescriptor : Kind → Bool
  | .vmap => true
  | .region => true
  | .table => true
  | _ => false

/-- What an object is, and the mmap buffer that it was allocated for. -/
structure Obj where
  kind : Kind
  owner : Nat
  deriving DecidableEq, Repr

/-- The pointers of `struct fgds_mmap_buffer`, and the fields that steer the module. -/
structure Buf where
  ref : Int
  cVaddr : Nat
  mapLen : Nat
  vma : Bool
  dev : Option FgdsDev
  devPageAddrs : Option Nat
  ppages : Option Nat
  map : Option Nat
  remap : Bool
  deriving DecidableEq, Repr

/-- The heap with the contents of the objects that hold pointers: mmap buffers, `data` of a
`p2p_vmap`, `pages` of a `gpu_region`, and the callback data of a page table. -/
structure Kernel where
  heap : Heap Obj
  bufs : Nat → Buf
  data : Nat → Option Nat
  pages : Nat → Option Nat
  callback : Nat → Nat

namespace Kernel

/-- The module is loaded and no buffer exists. -/
def loaded : Kernel :=
  { heap := Heap.empty
    bufs := fun _ =>
      { ref := 0, cVaddr := 0, mapLen := 0, vma := false, dev := none, devPageAddrs := none
        ppages := none, map := none, remap := false }
    data := fun _ => none
    pages := fun _ => none
    callback := fun _ => 0 }

/-- The new object has the number `k.heap.next`. -/
def kmalloc (k : Kernel) (kind : Kind) (owner : Nat) : Kernel :=
  { k with heap := k.heap.alloc ⟨kind, owner⟩ }

def kfree (k : Kernel) (o : Nat) : Kernel := { k with heap := k.heap.free o }

/-- `if (p != NULL) kfree(p)`. -/
def kfreeOpt (k : Kernel) (q : Option Nat) : Kernel := { k with heap := k.heap.freeOpt q }

def touch (k : Kernel) (o : Nat) : Kernel := { k with heap := k.heap.touch o }

def setBuf (k : Kernel) (i : Nat) (b : Buf) : Kernel :=
  { k with bufs := Function.update k.bufs i b }

def setMap (k : Kernel) (i : Nat) (m : Option Nat) : Kernel :=
  k.setBuf i { k.bufs i with map := m }

def setPpages (k : Kernel) (i : Nat) (o : Option Nat) : Kernel :=
  k.setBuf i { k.bufs i with ppages := o }

def setAddrs (k : Kernel) (i : Nat) (o : Option Nat) : Kernel :=
  k.setBuf i { k.bufs i with devPageAddrs := o }

def setRemap (k : Kernel) (i : Nat) (r : Bool) : Kernel :=
  k.setBuf i { k.bufs i with remap := r }

def setData (k : Kernel) (m : Nat) (g : Option Nat) : Kernel :=
  { k with data := Function.update k.data m g }

def setPages (k : Kernel) (g : Nat) (t : Option Nat) : Kernel :=
  { k with pages := Function.update k.pages g t }

/-- `nvidia_p2p_get_pages` stored a page table in `gd->pages`; the driver keeps `map`. -/
def pin (k : Kernel) (owner map gd : Nat) : Kernel :=
  { (k.kmalloc .table owner).setPages gd (some k.heap.next) with
    callback := Function.update k.callback k.heap.next map }

end Kernel

/-- A buffer that has not been freed. -/
def Alive (k : Kernel) (i : Nat) : Prop :=
  k.heap.kind i = some ⟨.mbuffer, i⟩ ∧ k.heap.frees i = 0

/-! ## Releasing -/

/-- `__fgds_release_gpu_memory_core`; `map->pages` is NULL from the MAP on. -/
def fgdsReleaseCore (k : Kernel) : Option Nat → Kernel
  | none => k
  | some m =>
    let k := k.touch m
    let k :=
      match k.data m with
      | none => k
      | some g =>
        let k := k.touch g
        let k :=
          match k.pages g with
          | none => k
          | some t => (k.kfree t).setPages g none
        (k.kfree g).setData m none
    k.kfree m

/-- `force_release_gpu_memory`, called by the driver for the page table `t`. -/
def forceReleaseGpuMemory (k : Kernel) (t : Nat) : Kernel := fgdsReleaseCore k (some (k.callback t))

/-- The part of `fgds_mbuffer_free` for a buffer that is mapped. -/
def releaseMapped (k : Kernel) (i : Nat) : Kernel :=
  if (k.bufs i).remap then
    ((fgdsReleaseCore k (k.bufs i).map).setMap i none).setRemap i false
  else k

/-- `fgds_mbuffer_free`. -/
def fgdsMbufferFree (k : Kernel) (i : Nat) : Kernel :=
  let b := k.bufs i
  let k := releaseMapped k i
  let k := (k.kfreeOpt b.devPageAddrs).setAddrs i none
  let k := (k.kfreeOpt b.ppages).setPpages i none
  k.setBuf i { k.bufs i with dev := none, vma := false }

/-- `fgds_mbuffer_put`: the last reference frees the buffer. -/
def fgdsMbufferPut (k : Kernel) (i : Nat) : Kernel :=
  let k := k.setBuf i { k.bufs i with ref := (k.bufs i).ref - 1 }
  if (k.bufs i).ref = 0 then (fgdsMbufferFree k i).kfree i else k

/-! ## `fgds_setup_mmap_buffer` and `fgds_map_dev_addr_inner` -/

/-- The buffer of a new VMA. -/
def newBuf (dev : FgdsDev) (start stop : Nat) : Buf :=
  { ref := 1, cVaddr := start, mapLen := stop - start, vma := true, dev := some dev
    devPageAddrs := none, ppages := none, map := none, remap := false }

/-- `fgds_setup_mmap_buffer` for a new VMA: the return value, and the buffer that it put
into `vm_private_data`. -/
def fgdsSetupMmapBuffer (k : Kernel) (dev : Option FgdsDev) (kzalloc : Bool) (start stop : Nat) :
    Int × Option Nat × Kernel :=
  match dev with
  | none => (-eInval, none, k)
  | some dev =>
    if ¬ kzalloc then (-eNoMem, none, k)
    else
      let i := k.heap.next
      (0, some i, (k.kmalloc .mbuffer i).setBuf i (newBuf dev start stop))

/-- The result of a MAP. `ret` is `none` when a NULL pointer was dereferenced: the caller is
killed, and everything stays as it is at that point. `got` is what `get_pages` returned, if
it was called, and `readTable` says whether `gd->pages` was read afterwards. -/
structure MapOutcome where
  ret : Option Int
  kernel : Kernel
  inserted : List Nat
  got : Option Int
  readTable : Bool

/-- What the label `out` frees: the local `gd`, the buffer's `map` and `ppages`, and the
array through the local pointer, whether or not the buffer has it too. -/
def mapOut (k : Kernel) (i : Nat) (gd devPageAddrs : Option Nat) : Kernel :=
  let k := k.kfreeOpt gd
  let k := (k.kfreeOpt (k.bufs i).map).setMap i none
  let k := (k.kfreeOpt (k.bufs i).ppages).setPpages i none
  k.kfreeOpt devPageAddrs

/-- `nr_dev_pages`. -/
def nrDevPages (devLen : Nat) : Nat := u64 (devLen + fgdsGpuPageSize - 1) / fgdsGpuPageSize

/-- `host_page_num`. -/
def hostPageNum (devLen : Nat) : Nat :=
  if devLen < fgdsGpuPageSize then u64 (devLen + pageSize - 1) / pageSize
  else u64 (nrDevPages devLen * (fgdsGpuPageSize / pageSize) : Nat)

section Map

variable (p : Platform) (env : MapEnv)

/-- A failure before `get_pages`. -/
def stopped (k : Kernel) (ret : Int) : MapOutcome := ⟨some ret, k, [], none, false⟩

/-- The call of `nvidia_p2p_get_pages`: its result, and the page table that it stored. -/
def gotPages (devaddr devLen : Nat) : Int × Option (List (Option Nat)) :=
  env.getPages devaddr (u64 (fgdsGpuPageSize * nrDevPages devLen : Nat))

/-- The kernel after that call. -/
def pinned (k : Kernel) (i devaddr devLen map gd : Nat) : Kernel :=
  if (gotPages env devaddr devLen).2.isSome then k.pin i map gd else k

/-- A GPU page outside the BAR. -/
def badOffset (dev : FgdsDev) (addr : Nat) : Bool :=
  decide (barOff dev addr > u64 (dev.size - fgdsGpuPageSize))

/-- The pages handed to `vm_insert_pages`. -/
def hostPages (dev : FgdsDev) (va devLen : Nat) (addrs : List Nat) : List Nat :=
  (addrs.flatMap (gpuPagePages p dev va)).take (hostPageNum devLen)

/-- From the page table on, for the new objects `addrs`, `map` and `gd`. -/
def mapPages (k : Kernel) (i : Nat) (dev : FgdsDev) (va devaddr devLen addrs map gd : Nat) :
    MapOutcome :=
  let got := gotPages env devaddr devLen
  let k := pinned env k i devaddr devLen map gd
  let read := decide (nrDevPages devLen ≠ 0)
  match readPages got.2 (nrDevPages devLen) with
  | .oops => ⟨none, k, [], some got.1, read⟩
  | .missing => ⟨some got.1, mapOut k i (some gd) (some addrs), [], some got.1, read⟩
  | .addrs l =>
    let k := k.setAddrs i (some addrs)
    if l.any (badOffset dev) then
      ⟨some (-eInval), mapOut k i (some gd) (some addrs), [], some got.1, read⟩
    else
      let pages := hostPages p dev va devLen l
      let ins := env.insertPages (k.bufs i).cVaddr pages
      if ins.1 ≠ 0 then
        ⟨some ins.1, mapOut k i (some gd) (some addrs), pages.take ins.2, some got.1, read⟩
      else ⟨some 0, k.setRemap i true, pages.take ins.2, some got.1, read⟩

/-- The allocations of `fgds_map_dev_addr_inner`, one after the other. -/
def mapAllocs (k : Kernel) (i : Nat) (dev : FgdsDev) (va devaddr devLen : Nat) : MapOutcome :=
  if ¬ env.kzallocAddrs then stopped (mapOut k i none none) (-eNoMem)
  else
    let addrs := k.heap.next
    let k := k.kmalloc .devPageAddrs i
    if ¬ env.kmallocPages then
      stopped (mapOut (k.setPpages i none) i none (some addrs)) (-eNoMem)
    else
      let k := (k.kmalloc .ppages i).setPpages i (some k.heap.next)
      if ¬ env.kmallocMap then stopped (mapOut (k.setMap i none) i none (some addrs)) (-eNoMem)
      else
        let map := k.heap.next
        let k := (k.kmalloc .vmap i).setMap i (some map)
        if ¬ env.kmallocRegion then stopped (mapOut k i none (some addrs)) (-eNoMem)
        else
          let gd := k.heap.next
          let k := ((k.kmalloc .region i).setPages gd none).setData map (some gd)
          mapPages p env k i dev va devaddr devLen addrs map gd

/-- `fgds_map_dev_addr_inner`. -/
def fgdsMapDevAddrInner (k : Kernel) (i devaddr devLen : Nat) : MapOutcome :=
  match (k.bufs i).dev with
  | none => stopped (mapOut k i none none) (-eNoMem)
  | some dev =>
    match dev.pciMemVa with
    | none => stopped (mapOut k i none none) (-eNoMem)
    | some va =>
      if devLen < fgdsGpuPageSize ∧ devLen % pageSize ≠ 0 then
        stopped (mapOut k i none none) (-eInval)
      else mapAllocs p env k i dev va devaddr devLen

/-- `fgds_map_dev_addr` for the buffer that the lookup found. -/
def fgdsMapDevAddr (k : Kernel) (i devaddr devLen length : Nat) : MapOutcome :=
  if ¬ (k.bufs i).vma ∨ devaddr ≤ length then stopped k (-eInval)
  else fgdsMapDevAddrInner p env k i devaddr devLen

end Map

/-! ## The contents of a buffer, and the heap -/

namespace Kernel

variable (k : Kernel) (i o : Nat) (q : Option Nat)

@[simp] theorem kmalloc_bufs (kind : Kind) (owner : Nat) : (k.kmalloc kind owner).bufs = k.bufs :=
  rfl

@[simp] theorem kfree_bufs : (k.kfree o).bufs = k.bufs := rfl

@[simp] theorem kfreeOpt_bufs : (k.kfreeOpt q).bufs = k.bufs := rfl

@[simp] theorem setBuf_bufs (b : Buf) : (k.setBuf i b).bufs = Function.update k.bufs i b := rfl

@[simp] theorem setMap_self : (k.setMap i q).bufs i = { k.bufs i with map := q } := by
  simp [setMap]

@[simp] theorem setPpages_self : (k.setPpages i q).bufs i = { k.bufs i with ppages := q } := by
  simp [setPpages]

@[simp] theorem setAddrs_self : (k.setAddrs i q).bufs i = { k.bufs i with devPageAddrs := q } := by
  simp [setAddrs]

@[simp] theorem setRemap_self (r : Bool) :
    (k.setRemap i r).bufs i = { k.bufs i with remap := r } := by
  simp [setRemap]

@[simp] theorem setData_bufs : (k.setData o q).bufs = k.bufs := rfl

@[simp] theorem setPages_bufs : (k.setPages o q).bufs = k.bufs := rfl

@[simp] theorem setData_data : (k.setData o q).data = Function.update k.data o q := rfl

@[simp] theorem setPages_pages : (k.setPages o q).pages = Function.update k.pages o q := rfl

@[simp] theorem pin_bufs (owner map gd : Nat) : (k.pin owner map gd).bufs = k.bufs := rfl

@[simp] theorem kmalloc_heap (kind : Kind) (owner : Nat) :
    (k.kmalloc kind owner).heap = k.heap.alloc ⟨kind, owner⟩ := rfl

@[simp] theorem kfree_heap : (k.kfree o).heap = k.heap.free o := rfl

@[simp] theorem kfreeOpt_heap : (k.kfreeOpt q).heap = k.heap.freeOpt q := rfl

@[simp] theorem setBuf_heap (b : Buf) : (k.setBuf i b).heap = k.heap := rfl

@[simp] theorem setMap_heap : (k.setMap i q).heap = k.heap := rfl

@[simp] theorem setPpages_heap : (k.setPpages i q).heap = k.heap := rfl

@[simp] theorem setAddrs_heap : (k.setAddrs i q).heap = k.heap := rfl

@[simp] theorem setRemap_heap (r : Bool) : (k.setRemap i r).heap = k.heap := rfl

@[simp] theorem setData_heap : (k.setData o q).heap = k.heap := rfl

@[simp] theorem setPages_heap : (k.setPages o q).heap = k.heap := rfl

@[simp] theorem pin_heap (owner map gd : Nat) :
    (k.pin owner map gd).heap = k.heap.alloc ⟨.table, owner⟩ := rfl

end Kernel

open Kernel

/-- After the label `out` the buffer has neither `map` nor `ppages`. -/
@[simp] theorem mapOut_self (k : Kernel) (i : Nat) (gd addrs : Option Nat) :
    (mapOut k i gd addrs).bufs i = { k.bufs i with map := none, ppages := none } := by
  simp [mapOut]

theorem mapOut_heap (k : Kernel) (i : Nat) (gd addrs : Option Nat) :
    (mapOut k i gd addrs).heap =
      (((k.heap.freeOpt gd).freeOpt (k.bufs i).map).freeOpt (k.bufs i).ppages).freeOpt addrs := by
  simp [mapOut]

/-! ## The cases of `mapPages` -/

section Cases

variable {p : Platform} {env : MapEnv} {k : Kernel} {i : Nat} {dev : FgdsDev}
  {va devaddr devLen addrs map gd : Nat}

theorem pinned_bufs : (pinned env k i devaddr devLen map gd).bufs = k.bufs := by
  unfold pinned
  split <;> rfl

theorem mapPages_oops (h : readPages (gotPages env devaddr devLen).2 (nrDevPages devLen) = .oops) :
    mapPages p env k i dev va devaddr devLen addrs map gd =
      ⟨none, pinned env k i devaddr devLen map gd, [], some (gotPages env devaddr devLen).1,
        decide (nrDevPages devLen ≠ 0)⟩ := by
  rw [mapPages, h]

theorem mapPages_missing
    (h : readPages (gotPages env devaddr devLen).2 (nrDevPages devLen) = .missing) :
    mapPages p env k i dev va devaddr devLen addrs map gd =
      ⟨some (gotPages env devaddr devLen).1,
        mapOut (pinned env k i devaddr devLen map gd) i (some gd) (some addrs), [],
        some (gotPages env devaddr devLen).1, decide (nrDevPages devLen ≠ 0)⟩ := by
  rw [mapPages, h]

variable {l : List Nat}

theorem mapPages_outside
    (h : readPages (gotPages env devaddr devLen).2 (nrDevPages devLen) = .addrs l)
    (hbar : l.any (badOffset dev) = true) :
    mapPages p env k i dev va devaddr devLen addrs map gd =
      ⟨some (-eInval),
        mapOut ((pinned env k i devaddr devLen map gd).setAddrs i (some addrs)) i (some gd)
          (some addrs), [], some (gotPages env devaddr devLen).1,
        decide (nrDevPages devLen ≠ 0)⟩ := by
  rw [mapPages, h]
  dsimp only
  rw [if_pos hbar]

theorem mapPages_refused
    (h : readPages (gotPages env devaddr devLen).2 (nrDevPages devLen) = .addrs l)
    (hbar : ¬ l.any (badOffset dev) = true)
    (hins : (env.insertPages (k.bufs i).cVaddr (hostPages p dev va devLen l)).1 ≠ 0) :
    mapPages p env k i dev va devaddr devLen addrs map gd =
      ⟨some (env.insertPages (k.bufs i).cVaddr (hostPages p dev va devLen l)).1,
        mapOut ((pinned env k i devaddr devLen map gd).setAddrs i (some addrs)) i (some gd)
          (some addrs),
        (hostPages p dev va devLen l).take
          (env.insertPages (k.bufs i).cVaddr (hostPages p dev va devLen l)).2,
        some (gotPages env devaddr devLen).1, decide (nrDevPages devLen ≠ 0)⟩ := by
  rw [mapPages, h]
  dsimp only
  rw [if_neg hbar, setAddrs_self, pinned_bufs, if_pos hins]

theorem mapPages_done
    (h : readPages (gotPages env devaddr devLen).2 (nrDevPages devLen) = .addrs l)
    (hbar : ¬ l.any (badOffset dev) = true)
    (hins : ¬ (env.insertPages (k.bufs i).cVaddr (hostPages p dev va devLen l)).1 ≠ 0) :
    mapPages p env k i dev va devaddr devLen addrs map gd =
      ⟨some 0, ((pinned env k i devaddr devLen map gd).setAddrs i (some addrs)).setRemap i true,
        (hostPages p dev va devLen l).take
          (env.insertPages (k.bufs i).cVaddr (hostPages p dev va devLen l)).2,
        some (gotPages env devaddr devLen).1, decide (nrDevPages devLen ≠ 0)⟩ := by
  rw [mapPages, h]
  dsimp only
  rw [if_neg hbar, setAddrs_self, pinned_bufs, if_neg hins]

end Cases

/-! ## Where a MAP stops -/

/-- The checks pass, up to the allocation of the array of physical addresses. -/
structure PassesChecks (env : MapEnv) (b : Buf) (devLen : Nat) (dev : FgdsDev) (va : Nat) :
    Prop where
  hasDev : b.dev = some dev
  hasVa : dev.pciMemVa = some va
  len : ¬ (devLen < fgdsGpuPageSize ∧ devLen % pageSize ≠ 0)
  addrs : env.kzallocAddrs = true
  pages : env.kmallocPages = true

/-- The MAP gets to `nvidia_p2p_get_pages`. -/
structure Reaches (env : MapEnv) (b : Buf) (devLen : Nat) (dev : FgdsDev) (va : Nat) : Prop
    extends PassesChecks env b devLen dev va where
  map : env.kmallocMap = true
  region : env.kmallocRegion = true

section Stops

variable (k : Kernel) (i : Nat)

/-- The kernel after the first two allocations. -/
def withPages : Kernel :=
  ((k.kmalloc .devPageAddrs i).kmalloc .ppages i).setPpages i (some (k.heap.next + 1))

/-- The kernel after the allocation of the `p2p_vmap`. -/
def withMap : Kernel := ((withPages k i).kmalloc .vmap i).setMap i (some (k.heap.next + 2))

/-- The kernel after all four. -/
def withRegion : Kernel :=
  (((withMap k i).kmalloc .region i).setPages (k.heap.next + 3) none).setData (k.heap.next + 2)
    (some (k.heap.next + 3))

variable {k i}

theorem Alive.kmalloc (hi : Alive k i) (kind : Kind) (owner : Nat) :
    Alive (k.kmalloc kind owner) i :=
  ⟨Heap.alloc_kind_old hi.1 _, hi.2⟩

theorem Alive.withPages (hi : Alive k i) : Alive (withPages k i) i :=
  (hi.kmalloc .devPageAddrs i).kmalloc .ppages i

theorem Alive.withMap (hi : Alive k i) : Alive (withMap k i) i := hi.withPages.kmalloc .vmap i

variable (k i)

/-- The kernel after a MAP that did not get to `get_pages`, by what failed: a check or one of
the first two allocations, or (`true`) one of the other two. -/
inductive StoppedAt : Bool → Kernel → Prop
  | checks : StoppedAt false (mapOut k i none none)
  | pages :
      StoppedAt false
        (mapOut ((k.kmalloc .devPageAddrs i).setPpages i none) i none (some k.heap.next))
  | map : StoppedAt true (mapOut ((withPages k i).setMap i none) i none (some k.heap.next))
  | region : StoppedAt true (mapOut (withMap k i) i none (some k.heap.next))

end Stops

section Inner

variable {p : Platform} {env : MapEnv} {k : Kernel} {i devLen va : Nat} {dev : FgdsDev}

theorem fgdsMapDevAddrInner_reaches (h : Reaches env (k.bufs i) devLen dev va) (devaddr : Nat) :
    fgdsMapDevAddrInner p env k i devaddr devLen =
      mapPages p env (withRegion k i) i dev va devaddr devLen k.heap.next (k.heap.next + 2)
        (k.heap.next + 3) := by
  simp only [fgdsMapDevAddrInner, h.hasDev, h.hasVa, if_neg h.len, mapAllocs, h.addrs, h.pages,
    h.map, h.region, not_true_eq_false, ↓reduceIte]
  rfl

/-- A check or one of the first two allocations fails. -/
theorem fgdsMapDevAddrInner_refused (devaddr : Nat)
    (h : ∀ dev va, ¬ PassesChecks env (k.bufs i) devLen dev va) :
    ∃ k' ret, ret < 0 ∧ StoppedAt k i false k' ∧
      fgdsMapDevAddrInner p env k i devaddr devLen = stopped k' ret := by
  have hmem : -eNoMem < 0 := by decide
  have hinval : -eInval < 0 := by decide
  cases hdev : (k.bufs i).dev with
  | none => exact ⟨_, _, hmem, .checks, by simp only [fgdsMapDevAddrInner, hdev]⟩
  | some dev =>
    cases hva : dev.pciMemVa with
    | none => exact ⟨_, _, hmem, .checks, by simp only [fgdsMapDevAddrInner, hdev, hva]⟩
    | some va =>
      have hinner : fgdsMapDevAddrInner p env k i devaddr devLen =
          if devLen < fgdsGpuPageSize ∧ devLen % pageSize ≠ 0 then
            stopped (mapOut k i none none) (-eInval)
          else mapAllocs p env k i dev va devaddr devLen := by
        simp only [fgdsMapDevAddrInner, hdev, hva]
      rw [hinner]
      by_cases hlen : devLen < fgdsGpuPageSize ∧ devLen % pageSize ≠ 0
      · exact ⟨_, _, hinval, .checks, if_pos hlen⟩
      rw [if_neg hlen, mapAllocs]
      by_cases h1 : env.kzallocAddrs = true
      swap
      · exact ⟨_, _, hmem, .checks, if_pos h1⟩
      rw [if_neg (not_not.mpr h1)]
      by_cases h2 : env.kmallocPages = true
      swap
      · exact ⟨_, _, hmem, .pages, if_pos h2⟩
      exact absurd ⟨hdev, hva, hlen, h1, h2⟩ (h dev va)

/-- One of the other two allocations fails. -/
theorem fgdsMapDevAddrInner_noMemory (devaddr : Nat)
    (h : PassesChecks env (k.bufs i) devLen dev va)
    (hn : ¬ (env.kmallocMap = true ∧ env.kmallocRegion = true)) :
    ∃ k', StoppedAt k i true k' ∧
      fgdsMapDevAddrInner p env k i devaddr devLen = stopped k' (-eNoMem) := by
  by_cases h3 : env.kmallocMap = true
  · have h4 : ¬ env.kmallocRegion = true := fun hr => hn ⟨h3, hr⟩
    refine ⟨_, .region, ?_⟩
    simp only [fgdsMapDevAddrInner, h.hasDev, h.hasVa, if_neg h.len, mapAllocs, h.addrs, h.pages,
      h3, not_true_eq_false, ↓reduceIte]
    exact if_pos h4
  · refine ⟨_, .map, ?_⟩
    simp only [fgdsMapDevAddrInner, h.hasDev, h.hasVa, if_neg h.len, mapAllocs, h.addrs, h.pages,
      not_true_eq_false, ↓reduceIte]
    exact if_pos h3

/-- Where a MAP that does not get to `get_pages` stops. -/
theorem fgdsMapDevAddrInner_stops (devaddr : Nat)
    (h : ∀ dev va, ¬ Reaches env (k.bufs i) devLen dev va) :
    ∃ passed k' ret, ret < 0 ∧ StoppedAt k i passed k' ∧
      fgdsMapDevAddrInner p env k i devaddr devLen = stopped k' ret := by
  by_cases hpass : ∃ dev va, PassesChecks env (k.bufs i) devLen dev va
  · obtain ⟨dev, va, hpass⟩ := hpass
    obtain ⟨k', hstop, hout⟩ := fgdsMapDevAddrInner_noMemory (p := p) devaddr hpass
      fun hboth => h dev va ⟨hpass, hboth.1, hboth.2⟩
    exact ⟨true, k', _, by decide, hstop, hout⟩
  · obtain ⟨k', ret, hret, hstop, hout⟩ := fgdsMapDevAddrInner_refused (p := p) devaddr
      fun dev va hp => hpass ⟨dev, va, hp⟩
    exact ⟨false, k', ret, hret, hstop, hout⟩

end Inner

/-! ## The same values as without pointers -/

/-- The fields that the label `out` leaves alone, with and without pointers. -/
structure AgreeKept (b : Buf) (mb : Mbuffer) : Prop where
  cVaddr : b.cVaddr = mb.cVaddr
  dev : b.dev = mb.dev
  remap : b.remap = mb.remap
  devPageAddrs : b.devPageAddrs.isSome = mb.devPageAddrs.isSome

/-- A buffer with pointers, and the same buffer with what they point to. -/
structure Agree (b : Buf) (mb : Mbuffer) : Prop extends AgreeKept b mb where
  ppages : b.ppages.isSome = mb.ppages.isSome
  map : b.map.isSome = mb.map.isSome

/-- The two models of a MAP agree on the return value, on the inserted pages and on which
pointers are NULL afterwards. -/
def Agrees (i : Nat) (out : MapOutcome) : Option MapResult → Prop
  | none => out.ret = none
  | some res =>
    out.ret = some res.ret ∧ out.inserted = res.inserted ∧ Agree (out.kernel.bufs i) res.mbuffer

theorem AgreeKept.out {k : Kernel} {i : Nat} {mb : Mbuffer} (h : AgreeKept (k.bufs i) mb)
    (gd addrs : Option Nat) (ret : Int) (inserted : List Nat) (got : Option Int) (read : Bool) :
    Agrees i ⟨some ret, mapOut k i gd addrs, inserted, got, read⟩
      (some (KernelMap.mapOut mb ret inserted)) := by
  refine ⟨rfl, rfl, ?_⟩
  rw [mapOut_self]
  exact ⟨⟨h.cVaddr, h.dev, h.remap, h.devPageAddrs⟩, rfl, rfl⟩

section Pages

variable (p : Platform) (env : MapEnv) (dev : FgdsDev) (va devaddr devLen : Nat)

/-- The model without pointers, once the page table has been read. -/
def insertResult (mb : Mbuffer) (l : List Nat) : Option MapResult :=
  if l.any (badOffset dev) then some (KernelMap.mapOut mb (-eInval) [])
  else
    let pages := hostPages p dev va devLen l
    let ins := env.insertPages mb.cVaddr pages
    if ins.1 ≠ 0 then some (KernelMap.mapOut mb ins.1 (pages.take ins.2))
    else
      some ⟨0,
        { mb with
          ppages := some (l.flatMap (gpuPagePages p dev va)), remap := true
          map := some ⟨devaddr, devLen, nrDevPages devLen⟩ },
        pages.take ins.2⟩

theorem mapPages_agrees {k : Kernel} {i : Nat} {mb : Mbuffer} {l : List Nat}
    (h : AgreeKept (k.bufs i) mb) (hpages : (k.bufs i).ppages.isSome = true)
    (hmap : (k.bufs i).map.isSome = true)
    (hread : readPages (gotPages env devaddr devLen).2 (nrDevPages devLen) = .addrs l)
    (addrs map gd : Nat) :
    Agrees i (mapPages p env k i dev va devaddr devLen addrs map gd)
      (insertResult p env dev va devaddr devLen { mb with devPageAddrs := some l } l) := by
  unfold insertResult
  dsimp only
  by_cases hbar : l.any (badOffset dev) = true
  · rw [mapPages_outside hread hbar, if_pos hbar]
    apply AgreeKept.out
    rw [setAddrs_self, pinned_bufs]
    exact ⟨h.cVaddr, h.dev, h.remap, rfl⟩
  rw [if_neg hbar]
  by_cases hins : (env.insertPages (k.bufs i).cVaddr (hostPages p dev va devLen l)).1 ≠ 0
  · rw [mapPages_refused hread hbar hins]
    rw [h.cVaddr] at hins ⊢
    rw [if_pos hins]
    apply AgreeKept.out
    rw [setAddrs_self, pinned_bufs]
    exact ⟨h.cVaddr, h.dev, h.remap, rfl⟩
  · rw [mapPages_done hread hbar hins]
    rw [h.cVaddr] at hins ⊢
    rw [if_neg hins]
    refine ⟨rfl, rfl, ?_⟩
    rw [setRemap_self, setAddrs_self, pinned_bufs]
    exact ⟨⟨h.cVaddr, h.dev, rfl, rfl⟩, hpages, hmap⟩

end Pages

theorem fgdsMapDevAddrInner_agrees (p : Platform) (env : MapEnv) {k : Kernel} {i : Nat}
    {mb : Mbuffer} (h : Agree (k.bufs i) mb) (devaddr devLen : Nat) :
    Agrees i (fgdsMapDevAddrInner p env k i devaddr devLen)
      (KernelMap.fgdsMapDevAddrInner p env mb devaddr devLen) := by
  obtain ⟨⟨hc, hd, hr, ha⟩, -, -⟩ := h
  simp only [fgdsMapDevAddrInner, KernelMap.fgdsMapDevAddrInner, hd]
  cases hdev : mb.dev with
  | none =>
    apply AgreeKept.out
    exact ⟨hc, hd.trans hdev, hr, ha⟩
  | some dev =>
    rw [hdev] at hd
    simp only
    cases hva : dev.pciMemVa with
    | none =>
      apply AgreeKept.out
      exact ⟨hc, hd, hr, ha⟩
    | some va =>
      simp only [mapAllocs]
      by_cases hlen : devLen < fgdsGpuPageSize ∧ devLen % pageSize ≠ 0
      · rw [if_pos hlen, if_pos hlen]
        apply AgreeKept.out
        exact ⟨hc, hd, hr, ha⟩
      rw [if_neg hlen, if_neg hlen]
      by_cases h1 : ¬ env.kzallocAddrs
      · rw [if_pos h1, if_pos h1]
        apply AgreeKept.out
        exact ⟨hc, hd, hr, ha⟩
      rw [if_neg h1, if_neg h1]
      by_cases h2 : ¬ env.kmallocPages
      · rw [if_pos h2, if_pos h2]
        apply AgreeKept.out
        rw [setPpages_self]
        exact ⟨hc, hd, hr, ha⟩
      rw [if_neg h2, if_neg h2]
      by_cases h3 : ¬ env.kmallocMap
      · rw [if_pos h3, if_pos h3]
        apply AgreeKept.out
        rw [setMap_self, setPpages_self]
        exact ⟨hc, hd, hr, ha⟩
      rw [if_neg h3, if_neg h3]
      by_cases h4 : ¬ env.kmallocRegion
      · rw [if_pos h4, if_pos h4]
        apply AgreeKept.out
        rw [setMap_self, kmalloc_bufs, setPpages_self]
        exact ⟨hc, hd, hr, ha⟩
      rw [if_neg h4, if_neg h4]
      -- the buffer now has its own `map` and `ppages`
      generalize hk' : Kernel.setData _ _ _ = k'
      obtain ⟨hkept, hp', hm'⟩ : AgreeKept (k'.bufs i)
            { mb with
              dev := some dev, cpuPagesPerGpuPage := fgdsGpuPageSize / pageSize
              devPageNum := nrDevPages devLen, hostPageNum := hostPageNum devLen } ∧
          (k'.bufs i).ppages.isSome = true ∧ (k'.bufs i).map.isSome = true := by
        rw [← hk']
        refine ⟨⟨?_, ?_, ?_, ?_⟩, ?_, ?_⟩ <;> simp [hc, hd, hr, ha]
      clear hk'
      have hnr : u64 (devLen + fgdsGpuPageSize - 1) / fgdsGpuPageSize = nrDevPages devLen := rfl
      have hhost : (if devLen < fgdsGpuPageSize then u64 (devLen + pageSize - 1) / pageSize
          else u64 (nrDevPages devLen * (fgdsGpuPageSize / pageSize) : Nat)) =
          hostPageNum devLen := rfl
      rw [hnr, hhost]
      cases hread : readPages (env.getPages devaddr
          (u64 (fgdsGpuPageSize * nrDevPages devLen : Nat))).2 (nrDevPages devLen) with
      | oops =>
        rw [mapPages_oops hread]
        rfl
      | missing =>
        rw [mapPages_missing hread]
        apply AgreeKept.out
        rw [pinned_bufs]
        exact hkept
      | addrs l => exact mapPages_agrees p env dev va devaddr devLen hkept hp' hm' hread _ _ _

end Fgds.KernelHeap
