import Fgds.AddressSpace
import Fgds.GpuMap
import Fgds.Lib.Runs

/-!
# Resolving an address to a buffer

MAP and UNMAP find the buffer of an address through `vm_private_data` of the VMA there. Runs of
several processes: they map the device and other drivers' devices, call MAP and UNMAP, unmap
any range and fork; memory of freed buffers is used again, and other drivers write their data.

The VMA is not told when an UNMAP frees the buffer, and `fgds_mbuffer_free` leaves `c_vaddr` and
`map_len` in place: a second lookup of the same address returns the freed buffer. Nor does the
lookup ask whether the VMA is one of this device.

* `Resolves`: the lookup returns NULL, or the live buffer that was made for the VMA;
* `InUse`: what is required of the address;
* `lookup_resolves`: the two agree in every run whose MAPs and UNMAPs meet the condition;
* `lookup_after_unmap`: `mmap`, UNMAP, lookup.
-/

namespace Fgds.Resolve

open Fgds.Lib.Alloc Fgds.Lib.Runs Fgds.Device Fgds.Remap Fgds.KernelHeap Fgds.Buffers
open Fgds.AddressSpace
open Fgds.GpuMap (movedDev)
open Fgds.KernelMap (MapEnv)
open Fgds.Regmem (MapParam)
open KernelHeap.Kernel

/-! ## Processes -/

/-- Kernel memory and the VMAs of each process. `unmapped` remembers the buffers that an UNMAP
was about. -/
structure World where
  mem : Memory
  procs : Nat → List Vma
  unmapped : Nat → Bool

def World.initial : World where
  mem := ⟨.loaded, fun _ => (0, 0)⟩
  procs _ := []
  unmapped _ := false

inductive Action where
  | mmap (pid : Nat) (dev : Option FgdsDev) (kzalloc : Bool) (start stop : Nat)
  | mmapOther (pid start stop : Nat) (data : Option Nat)
  | map (pid : Nat) (p : Platform) (env : MapEnv) (para : MapParam)
  | unmap (pid : Nat) (para : MapParam)
  | munmap (pid addr len : Nat)
  | fork (parent child : Nat)
  | reuse (i : Nat) (b : Buf)
  | foreignWrite (a : Nat) (words : Nat × Nat)

def World.lookup (w : World) (pid cpuvaddr length : Nat) : Option Private :=
  fgdsLookupMmapBuffer w.mem (w.procs pid) cpuvaddr length

def World.setVmas (w : World) (pid : Nat) (vmas : List Vma) : World :=
  { w with procs := Function.update w.procs pid vmas }

theorem World.setVmas_procs (w : World) (pid : Nat) (vmas : List Vma) :
    (w.setVmas pid vmas).procs = Function.update w.procs pid vmas := rfl

def World.step (w : World) : Action → World
  | .mmap pid dev kzalloc start stop =>
    let (mem, vmas) := fgdsMmap w.mem (w.procs pid) dev kzalloc start stop
    { w with mem }.setVmas pid vmas
  | .mmapOther pid start stop data =>
    w.setVmas pid
      ({ start, stop, privateData := data.map .foreign, origin := none } :: w.procs pid)
  | .map pid p env para => { w with mem := ioctlMap p env w.mem (w.procs pid) para }
  | .unmap pid para =>
    { w with
      mem := ioctlUnmap w.mem (w.procs pid) para
      unmapped :=
        match w.lookup pid para.hostVaddr para.hostVaddrSize with
        | some (.mbuffer i) => Function.update w.unmapped i true
        | _ => w.unmapped }
  | .munmap pid addr len => w.setVmas pid (munmap (w.procs pid) addr len)
  -- `dup_mmap` copies the VMAs: VM_DONTCOPY is not set
  | .fork parent child => w.setVmas child (w.procs parent)
  | .reuse i b => { w with mem := { w.mem with kernel := w.mem.kernel.setBuf i b } }
  | .foreignWrite a words =>
    { w with mem := { w.mem with foreign := Function.update w.mem.foreign a words } }

/-- New VMAs do not overlap others of the process, a child is a new process, and only the
memory of freed buffers is used for something else. -/
def Possible (w : World) : Action → Prop
  | .mmap pid _ _ start stop | .mmapOther pid start stop _ =>
    start < stop ∧ start % pageSize = 0 ∧ stop % pageSize = 0 ∧
      ∀ v ∈ w.procs pid, v.stop ≤ start ∨ stop ≤ v.start
  | .fork _ child => w.procs child = []
  | .reuse i _ => w.mem.kernel.heap.frees i ≠ 0
  | _ => True

def processes : System World Action where
  init := .initial
  step := World.step
  possible := Possible

/-! ## The property and the condition -/

/-- The lookup returns NULL, or the buffer that was made for the VMA at the address (or the VMA
it is a copy of), and that buffer has not been freed. -/
def Resolves (w : World) (pid cpuvaddr length : Nat) : Prop :=
  ∀ ptr, w.lookup pid cpuvaddr length = some ptr →
    ∃ vma i, vmaLookup (w.procs pid) cpuvaddr = some vma ∧ vma.origin = some i ∧
      ptr = .mbuffer i ∧ Alive w.mem.kernel i

/-- If the private data of the VMA at the address reads as the buffer asked for, the VMA goes
back to an `mmap` of this device and no UNMAP was about its buffer. -/
def InUse (w : World) (pid cpuvaddr length : Nat) : Prop :=
  cpuvaddr ≠ 0 → cpuvaddr % pageSize = 0 →
    ∀ vma ptr, vmaLookup (w.procs pid) cpuvaddr = some vma → vma.privateData = some ptr →
      w.mem.read ptr = (cpuvaddr, length) → ∃ i, vma.origin = some i ∧ w.unmapped i = false

/-- The condition on a step. -/
def Ok (w : World) : Action → Prop
  | .map pid _ _ para => InUse w pid para.hostVaddr para.hostVaddrSize
  | .unmap pid para => InUse w pid para.hostVaddr para.hostVaddrSize
  | _ => True

/-! ## The invariant -/

/-- `i` is, or was, a buffer. -/
def Made (k : Kernel) (i : Nat) : Prop := k.heap.kind i = some ⟨.mbuffer, i⟩

/-- A VMA of this device points to the buffer that was made for it, one of another driver does
not point to a buffer. -/
def VmaOk (k : Kernel) (v : Vma) : Prop :=
  match v.origin with
  | some i => v.privateData = some (.mbuffer i) ∧ Made k i
  | none => ∀ i, v.privateData ≠ some (.mbuffer i)

structure Inv (w : World) : Prop where
  typed : Typed w.mem.kernel
  vma : ∀ pid, ∀ v ∈ w.procs pid, VmaOk w.mem.kernel v
  alive : ∀ i, Alive w.mem.kernel i ↔ Made w.mem.kernel i ∧ w.unmapped i = false
  made : ∀ i, w.unmapped i = true → Made w.mem.kernel i

theorem VmaOk.mono {k k' : Kernel} {v : Vma} (h : VmaOk k v) (hm : ∀ i, Made k i → Made k' i) :
    VmaOk k' v := by
  unfold VmaOk at h ⊢
  split
  · rename_i i ho
    rw [ho] at h
    exact ⟨h.1, hm i h.2⟩
  · rename_i ho
    rw [ho] at h
    exact h

section Inv

variable {w : World}

theorem inv_initial : Inv .initial := by
  refine ⟨typed_loaded, nofun, fun i => ⟨fun hi => ?_, fun hi => ?_⟩, nofun⟩
  · cases hi.1
  · cases hi.1

/-- The lookup meets the property if and only if the condition holds of the address. -/
theorem Inv.resolves_iff (h : Inv w) (pid cpuvaddr length : Nat) :
    Resolves w pid cpuvaddr length ↔ InUse w pid cpuvaddr length := by
  constructor
  · intro hres hzero hal vma ptr hv hp hread
    have hfound : w.lookup pid cpuvaddr length = some ptr :=
      fgdsLookupMmapBuffer_some.mpr ⟨hzero, hal, vma, hv, hp, hread⟩
    obtain ⟨vma', i, hv', ho, _, hi⟩ := hres ptr hfound
    rw [hv] at hv'
    cases hv'
    exact ⟨i, ho, ((h.alive i).mp hi).2⟩
  · intro huse ptr hfound
    obtain ⟨hzero, hal, vma, hv, hp, hread⟩ := fgdsLookupMmapBuffer_some.mp hfound
    obtain ⟨i, ho, hun⟩ := huse hzero hal vma ptr hv hp hread
    have hok := h.vma pid vma (List.mem_of_find?_eq_some hv)
    rw [VmaOk, ho] at hok
    obtain ⟨hpriv, hmade⟩ := hok
    rw [hp] at hpriv
    exact ⟨vma, i, hv, ho, Option.some.inj hpriv, (h.alive i).mpr ⟨hmade, hun⟩⟩

/-- A step that only changes the VMAs of one process. -/
theorem Inv.setVmas (h : Inv w) (pid : Nat) {vmas : List Vma}
    (hv : ∀ v ∈ vmas, VmaOk w.mem.kernel v) : Inv (w.setVmas pid vmas) := by
  refine ⟨h.typed, fun q v hmem => ?_, h.alive, h.made⟩
  by_cases hq : q = pid
  · subst hq
    rw [World.setVmas_procs, Function.update_self] at hmem
    exact hv v hmem
  · rw [World.setVmas_procs, Function.update_of_ne hq] at hmem
    exact h.vma q v hmem

/-- A step that changes the buffers of the module but makes and frees none. -/
theorem Inv.setKernel (h : Inv w) {k : Kernel} (htyped : Typed k)
    (hmade : ∀ i, Made k i ↔ Made w.mem.kernel i) (halive : ∀ i, Alive k i ↔ Alive w.mem.kernel i) :
    Inv { w with mem := { w.mem with kernel := k } } := by
  refine ⟨htyped, fun pid v hv => ?_, fun i => ?_, fun i hi => (hmade i).mpr (h.made i hi)⟩
  · exact (h.vma pid v hv).mono fun i => (hmade i).mpr
  · rw [halive, hmade]
    exact h.alive i

theorem Inv.mmap (h : Inv w) (pid : Nat) (dev : Option FgdsDev) (kzalloc : Bool)
    (start stop : Nat) : Inv (w.step (.mmap pid dev kzalloc start stop)) := by
  have hnothing : Inv (w.setVmas pid (w.procs pid)) := h.setVmas pid (h.vma pid)
  cases dev with
  | none => exact hnothing
  | some dev =>
    cases kzalloc with
    | false => exact hnothing
    | true =>
      obtain ⟨k, hk⟩ : ∃ k, k = (w.mem.kernel.kmalloc .mbuffer w.mem.kernel.heap.next).setBuf
        w.mem.kernel.heap.next (newBuf dev start stop) := ⟨_, rfl⟩
      obtain ⟨n, hn⟩ : ∃ n, n = w.mem.kernel.heap.next := ⟨_, rfl⟩
      obtain ⟨htyped, halive⟩ := h.typed.mmap dev start stop hk
      rw [← hn] at hk halive
      have hmade : ∀ i, Made k i ↔ Made w.mem.kernel i ∨ i = n := by
        intro i
        have hkind : k.heap.kind i =
            if i = n then some ⟨.mbuffer, n⟩ else w.mem.kernel.heap.kind i := by
          rw [hk, hn]
          exact Heap.alloc_kind _ _ _
        rw [Made, hkind]
        by_cases hi : i = n
        · simp [hi]
        · simp [hi, Made]
      have hfresh : w.unmapped n = false := by
        rw [← Bool.not_eq_true]
        intro htrue
        have hlt := Heap.lt_of_kind (h.made n htrue)
        omega
      have hnew : Inv { w with mem := { w.mem with kernel := k } } := by
        refine ⟨htyped, fun q v hv => ?_, fun i => ?_, fun i hi => ?_⟩
        · exact (h.vma q v hv).mono fun i hi => (hmade i).mpr (Or.inl hi)
        · rw [halive, hmade, h.alive i]
          by_cases hi : i = n
          · simp [hi, hfresh]
          · simp [hi]
        · exact (hmade i).mpr (Or.inl (h.made i hi))
      have hstep : w.step (.mmap pid (some dev) true start stop) =
          World.setVmas { w with mem := { w.mem with kernel := k } } pid
            (⟨start, stop, some (.mbuffer n), some n⟩ :: w.procs pid) := by
        rw [hk, hn]
        rfl
      rw [hstep]
      refine hnew.setVmas pid fun v hv => ?_
      rcases List.mem_cons.mp hv with rfl | hv
      · exact ⟨rfl, (hmade n).mpr (Or.inr rfl)⟩
      · exact hnew.vma pid v hv

/-- The buffer that a lookup under the condition finds. -/
theorem Inv.lookup (h : Inv w) {pid cpuvaddr length : Nat} (hok : InUse w pid cpuvaddr length)
    {ptr : Private} (hptr : w.lookup pid cpuvaddr length = some ptr) :
    ∃ i, ptr = .mbuffer i ∧ Alive w.mem.kernel i := by
  obtain ⟨_, i, _, _, hi⟩ := (h.resolves_iff pid cpuvaddr length).mpr hok ptr hptr
  exact ⟨i, hi⟩

theorem Inv.map (h : Inv w) (pid : Nat) (p : Platform) (env : MapEnv) (para : MapParam)
    (hok : InUse w pid para.hostVaddr para.hostVaddrSize) :
    Inv (w.step (.map pid p env para)) := by
  simp only [World.step, ioctlMap]
  cases hfound : fgdsLookupMmapBuffer w.mem (w.procs pid) para.hostVaddr para.hostVaddrSize with
  | none => exact h
  | some ptr =>
    obtain ⟨i, rfl, hi⟩ := h.lookup hok hfound
    have hf := fgdsMapDevAddr_frame p env w.mem.kernel i para.gpuAddr para.gpuAddrSize
      para.hostVaddrSize
    refine h.setKernel (h.typed.map_frame hi hf) (fun j => ⟨fun hj => ?_, hf.mono j _⟩)
      (h.typed.alive_map hi hf)
    have hlt : j < w.mem.kernel.heap.next := by
      by_contra hge
      exact hf.fresh j _ (by omega) hj rfl
    rwa [Made, hf.kind j hlt] at hj

theorem Inv.unmap (h : Inv w) (pid : Nat) (para : MapParam)
    (hok : InUse w pid para.hostVaddr para.hostVaddrSize) : Inv (w.step (.unmap pid para)) := by
  simp only [World.step, ioctlUnmap, World.lookup]
  cases hfound : fgdsLookupMmapBuffer w.mem (w.procs pid) para.hostVaddr para.hostVaddrSize with
  | none => exact h
  | some ptr =>
    obtain ⟨i, rfl, hi⟩ := h.lookup hok hfound
    obtain ⟨htyped, hrem⟩ := h.typed.put hi
    have hmade : ∀ j, Made (fgdsMbufferPut w.mem.kernel i) j ↔ Made w.mem.kernel j := by
      intro j
      rw [Made, Made, hrem.kind]
    refine ⟨htyped, fun q v hv => (h.vma q v hv).mono fun j => (hmade j).mpr, fun j => ?_,
      fun j hj => ?_⟩
    · rw [hrem.alive, h.alive j, hmade]
      by_cases hj : j = i
      · simp [hj]
      · simp [hj]
    · rw [hmade]
      by_cases hji : j = i
      · subst hji
        exact hi.1
      · apply h.made j
        simpa [hji] using hj

theorem Inv.reuse (h : Inv w) (i : Nat) (b : Buf) (hi : w.mem.kernel.heap.frees i ≠ 0) :
    Inv (w.step (.reuse i b)) := by
  refine h.setKernel ?_ (fun _ => Iff.rfl) fun _ => Iff.rfl
  have hbufs : ∀ j, Alive (w.mem.kernel.setBuf i b) j →
      (w.mem.kernel.setBuf i b).bufs j = w.mem.kernel.bufs j := by
    intro j hj
    have hne : j ≠ i := fun heq => hi (heq ▸ hj.2)
    rw [setBuf_bufs, Function.update_of_ne hne]
  refine ⟨⟨h.typed.data, h.typed.pages⟩, fun j hj => ?_, fun j hj o ho => ?_⟩
  · rw [hbufs j hj]
    exact h.typed.ref j hj
  · rw [hbufs j hj] at ho
    exact h.typed.ptr j hj o ho

theorem Inv.step (h : Inv w) {act : Action} (hp : Possible w act) (hok : Ok w act) :
    Inv (w.step act) := by
  cases act with
  | mmap pid dev kzalloc start stop => exact h.mmap pid dev kzalloc start stop
  | mmapOther pid start stop data =>
    refine h.setVmas pid fun v hv => ?_
    rcases List.mem_cons.mp hv with rfl | hv
    · intro i
      cases data <;> simp
    · exact h.vma pid v hv
  | map pid p env para => exact h.map pid p env para hok
  | unmap pid para => exact h.unmap pid para hok
  | munmap pid addr len =>
    refine h.setVmas pid fun v hv => ?_
    obtain ⟨u, hu, hpriv, ho⟩ := mem_munmap hv
    have hold := h.vma pid u hu
    rwa [VmaOk, hpriv, ho]
  | fork parent child => exact h.setVmas child (h.vma parent)
  | reuse i b => exact h.reuse i b hp
  | foreignWrite a words => exact ⟨h.typed, h.vma, h.alive, h.made⟩

end Inv

/-! ## Runs -/

/-- **Resolution.** In every run whose MAPs and UNMAPs are about addresses in use, the lookup of
any address in any process, and so the next MAP or UNMAP, returns NULL or the live buffer made
for the VMA if and only if that address is in use. -/
theorem lookup_resolves {w : World} (h : Run processes Ok w) (pid cpuvaddr length : Nat) :
    Resolves w pid cpuvaddr length ↔ InUse w pid cpuvaddr length := by
  have hinv : Inv w := h.inv inv_initial fun _ _ hinv hp hok => hinv.step hp hok
  exact hinv.resolves_iff pid cpuvaddr length

/-- Process 0 maps 128KB of the device and forks process 1. -/
def forked : World :=
  (World.initial.step (.mmap 0 (some movedDev) true 4294967296 4295098368)).step (.fork 0 1)

theorem forked_run : Run processes Ok forked := by
  have hmmap : Run processes Ok
      (World.initial.step (.mmap 0 (some movedDev) true 4294967296 4295098368)) :=
    .step (S := processes) (.mmap 0 (some movedDev) true 4294967296 4295098368) .init
      ⟨by decide, by decide, by decide, nofun⟩ trivial
  exact .step (S := processes) (.fork 0 1) hmmap rfl trivial

/-- The child finds the buffer that was made for the VMA of its parent. -/
theorem lookup_resolves_child :
    forked.lookup 1 4294967296 131072 = some (.mbuffer 0) ∧
      Resolves forked 1 4294967296 131072 := by
  refine ⟨by decide, (lookup_resolves forked_run 1 4294967296 131072).mpr ?_⟩
  intro _ _ vma ptr hv _ _
  have hfirst : vmaLookup (forked.procs 1) 4294967296 =
      some ⟨4294967296, 4295098368, some (.mbuffer 0), some 0⟩ := by decide
  rw [hfirst] at hv
  cases hv
  exact ⟨0, rfl, rfl⟩

/-- The parent calls UNMAP, which frees the buffer. -/
def unmappedOnce : World := forked.step (.unmap 0 ⟨0, 4294967296, 131072, 0, 131072⟩)

/-- The address still resolves to it. -/
theorem lookup_after_unmap :
    Run processes (fun _ _ => True) unmappedOnce ∧
      unmappedOnce.lookup 0 4294967296 131072 = some (.mbuffer 0) ∧
      ¬ Resolves unmappedOnce 0 4294967296 131072 := by
  refine ⟨.step (S := processes) (.unmap 0 ⟨0, 4294967296, 131072, 0, 131072⟩)
    (forked_run.mono fun _ _ _ => trivial) trivial trivial, by decide, fun hres => ?_⟩
  obtain ⟨_, i, _, _, heq, halive⟩ := hres (.mbuffer 0) (by decide)
  cases heq
  have hfreed := halive.2
  revert hfreed
  decide

end Fgds.Resolve
