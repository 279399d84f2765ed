import Fgds.Buffers
import Fgds.Regmem

/-!
# Address spaces

The VMAs of processes and what the module keeps in them. `fgds_mmap` puts a pointer to the
new buffer into `vm_private_data` and installs no `vm_ops`: the memory management splits, copies
and removes VMAs without the module knowing. VMAs of other drivers hold pointers to those
drivers' own data, which `fgds_lookup_mmap_buffer` would read as a buffer.

* `fgdsLookupMmapBuffer`: the pointer that the lookup returns;
* `fgdsLookupMmapBuffer_agrees`: with what the pointers point to it is the lookup of the model
  without pointers;
* `munmap`: what is left of the VMAs.
-/

namespace Fgds.AddressSpace

open Fgds.Device Fgds.Remap Fgds.KernelHeap Fgds.Buffers
open Fgds.KernelMap (MapEnv Mbuffer Mm)
open Fgds.Regmem (MapParam)

/-- `vm_private_data`: a buffer of this module, or the data of another driver. -/
inductive Private where
  | mbuffer (i : Nat)
  | foreign (a : Nat)
  deriving DecidableEq, Repr

/-- A VMA. `origin` is the buffer that `fgds_setup_mmap_buffer` made for the `mmap` that the
VMA goes back to; the kernel has no such field. -/
structure Vma where
  start : Nat
  stop : Nat
  privateData : Option Private
  origin : Option Nat
  deriving DecidableEq, Repr

/-- Kernel memory: the module's objects, and of the other drivers' data the words at the
offsets of `c_vaddr` and `map_len`. -/
structure Memory where
  kernel : Kernel
  foreign : Nat → Nat × Nat

/-- `c_vaddr` and `map_len` as they are read through a pointer. -/
def Memory.read (mem : Memory) : Private → Nat × Nat
  | .mbuffer i => ((mem.kernel.bufs i).cVaddr, (mem.kernel.bufs i).mapLen)
  | .foreign a => mem.foreign a

/-! ## The lookup -/

def vmaLookup (vmas : List Vma) (addr : Nat) : Option Vma :=
  vmas.find? fun v => decide (v.start ≤ addr ∧ addr < v.stop)

/-- `fgds_lookup_mmap_buffer`. -/
def fgdsLookupMmapBuffer (mem : Memory) (vmas : List Vma) (cpuvaddr length : Nat) :
    Option Private :=
  if cpuvaddr = 0 then none
  else if cpuvaddr % pageSize ≠ 0 then none
  else
    match vmaLookup vmas cpuvaddr with
    | none => none
    | some vma =>
      match vma.privateData with
      | none => none
      | some mbuffer =>
        if (mem.read mbuffer).1 ≠ cpuvaddr ∨ (mem.read mbuffer).2 ≠ length then none
        else some mbuffer

section Lookup

variable {mem : Memory} {vmas : List Vma} {cpuvaddr length : Nat}

/-- What a successful lookup found. -/
theorem fgdsLookupMmapBuffer_some {ptr : Private} :
    fgdsLookupMmapBuffer mem vmas cpuvaddr length = some ptr ↔
      cpuvaddr ≠ 0 ∧ cpuvaddr % pageSize = 0 ∧
        ∃ vma, vmaLookup vmas cpuvaddr = some vma ∧ vma.privateData = some ptr ∧
          mem.read ptr = (cpuvaddr, length) := by
  unfold fgdsLookupMmapBuffer
  by_cases hzero : cpuvaddr = 0
  · simp [hzero]
  by_cases hal : cpuvaddr % pageSize ≠ 0
  · simp [hal]
  rw [if_neg hzero, if_neg hal]
  cases hv : vmaLookup vmas cpuvaddr with
  | none => simp
  | some vma =>
    cases hp : vma.privateData with
    | none => simp [hp]
    | some q =>
      simp only [hp]
      constructor
      · intro h
        split at h
        · cases h
        · rename_i hsame
          cases h
          refine ⟨hzero, not_not.mp hal, vma, rfl, hp, Prod.ext ?_ ?_⟩
          · exact not_not.mp fun hne => hsame (Or.inl hne)
          · exact not_not.mp fun hne => hsame (Or.inr hne)
      · rintro ⟨_, _, vma', hv', hp', hread⟩
        cases hv'
        rw [hp] at hp'
        cases hp'
        rw [hread]
        simp

/-- The VMA with what its private data points to. -/
def Vma.view (contents : Private → Mbuffer) (v : Vma) : KernelMap.Vma :=
  ⟨v.start, v.stop, v.privateData.map contents⟩

/-- The same lookup as without pointers. -/
theorem fgdsLookupMmapBuffer_agrees (contents : Private → Mbuffer)
    (hread : ∀ ptr, mem.read ptr = ((contents ptr).cVaddr, (contents ptr).mapLen))
    (pte : Nat → Option Nat) :
    (fgdsLookupMmapBuffer mem vmas cpuvaddr length).map contents =
      (KernelMap.fgdsLookupMmapBuffer ⟨vmas.map (Vma.view contents), pte⟩ cpuvaddr length).map
        Prod.snd := by
  have hfind : KernelMap.vmaLookup ⟨vmas.map (Vma.view contents), pte⟩ cpuvaddr =
      (vmaLookup vmas cpuvaddr).map (Vma.view contents) := by
    rw [KernelMap.vmaLookup, List.find?_map]
    rfl
  unfold fgdsLookupMmapBuffer KernelMap.fgdsLookupMmapBuffer
  rw [hfind]
  by_cases hzero : cpuvaddr = 0
  · rw [if_pos hzero, if_pos hzero]
    rfl
  by_cases hal : cpuvaddr % pageSize ≠ 0
  · rw [if_neg hzero, if_neg hzero, if_pos hal, if_pos hal]
    rfl
  rw [if_neg hzero, if_neg hzero, if_neg hal, if_neg hal]
  cases vmaLookup vmas cpuvaddr with
  | none => rfl
  | some vma =>
    cases hp : vma.privateData with
    | none => simp [Vma.view, hp]
    | some ptr =>
      simp only [Option.map_some, Vma.view, hp, hread]
      split <;> rfl

end Lookup

/-! ## The calls -/

/-- `mmap` on the device, for a new VMA. -/
def fgdsMmap (mem : Memory) (vmas : List Vma) (dev : Option FgdsDev) (kzalloc : Bool)
    (start stop : Nat) : Memory × List Vma :=
  match fgdsSetupMmapBuffer mem.kernel dev kzalloc start stop with
  | (_, none, _) => (mem, vmas)
  | (_, some i, k) =>
    ({ mem with kernel := k },
      { start, stop, privateData := some (.mbuffer i), origin := some i } :: vmas)

/-- FGDS_IOCTL_MAP: `fgds_map_dev_addr`. Nothing is said about what a MAP does to another
driver's data. -/
def ioctlMap (p : Platform) (env : MapEnv) (mem : Memory) (vmas : List Vma) (para : MapParam) :
    Memory :=
  match fgdsLookupMmapBuffer mem vmas para.hostVaddr para.hostVaddrSize with
  | none => mem
  | some (.foreign _) => mem
  | some (.mbuffer i) =>
    { mem with kernel := (fgdsMapDevAddr p env mem.kernel i para.gpuAddr para.gpuAddrSize
        para.hostVaddrSize).kernel }

/-- FGDS_IOCTL_UNMAP: `fgds_map_dev_release`. -/
def ioctlUnmap (mem : Memory) (vmas : List Vma) (para : MapParam) : Memory :=
  match fgdsLookupMmapBuffer mem vmas para.hostVaddr para.hostVaddrSize with
  | none => mem
  | some (.foreign _) => mem
  | some (.mbuffer i) => { mem with kernel := fgdsMbufferPut mem.kernel i }

/-- What is left of a VMA outside `[addr, stop)`. -/
def Vma.cut (v : Vma) (addr stop : Nat) : List Vma :=
  [{ v with stop := min v.stop addr }, { v with start := max v.start stop }].filter
    fun v => decide (v.start < v.stop)

/-- `munmap`. -/
def munmap (vmas : List Vma) (addr len : Nat) : List Vma :=
  vmas.flatMap fun v => v.cut addr (addr + len)

/-- Each VMA that is left is a part of one that was there. -/
theorem mem_munmap {vmas : List Vma} {addr len : Nat} {v : Vma} (h : v ∈ munmap vmas addr len) :
    ∃ w ∈ vmas, v.privateData = w.privateData ∧ v.origin = w.origin := by
  obtain ⟨w, hw, hv⟩ := List.mem_flatMap.mp h
  refine ⟨w, hw, ?_⟩
  have hpart := List.mem_of_mem_filter hv
  rcases List.mem_cons.mp hpart with rfl | hpart
  · exact ⟨rfl, rfl⟩
  · rw [List.mem_singleton.mp hpart]
    exact ⟨rfl, rfl⟩

end Fgds.AddressSpace
