import Fgds.Lib.CInt

/-!
# The registration list of a device

`libfgds/fgds.cc` keeps, for every device, a list of registered GPU regions. A
region is cut into segments of at most 1GB, each mapped at a host address of its
own. This module has the nodes of that list, the three list operations
(`insert_fgds_mmap_node`, `find_fgds_mmap_node`, `delete_fgds_mmap_node`), and what
a complete registration looks like:

* `MmapNode.Registered`: the facts `fgds_regmem` leaves behind for a region whose
  segments it mapped;
* `OpenDevice`: a device whose regions are pairwise disjoint, in GPU memory and in
  the host address space;
* `find_of_disjoint`, `OpenDevice.selects`: among disjoint regions the lookup selects
  the one that contains the pointer.
-/

namespace Fgds.Device

open Fgds.Lib.CInt

/-- `FGDS_GPU_PAGE_SIZE`. -/
def fgdsGpuPageSize : Nat := 64 * 1024

/-- `FGDS_MMAP_SEGMENT_SIZE`: the most one `mmap` covers. -/
def fgdsMmapSegmentSize : Nat := 1024 * 1024 * 1024

/-! ## Nodes and the list operations -/

/-- `fgds_mmap_node_t`. `self` is the node's own address, what `malloc` returned:
two nodes are the same object exactly when it is the same. The `next` pointer is
the list itself. -/
structure MmapNode where
  self : Nat
  vaddrs : List Nat
  mmapCount : Nat
  gpuAddr : Nat
  length : Nat
  lengthLeft : Nat
  isMapped : Bool
  deriving DecidableEq, Repr

/-- The test of `find_fgds_mmap_node`, in 64-bit unsigned arithmetic. -/
def MmapNode.covers (nd : MmapNode) (gpuAddr len : Nat) : Bool :=
  decide (nd.gpuAddr ≤ gpuAddr) && decide (u64 (nd.gpuAddr + nd.length) ≥ u64 (gpuAddr + len))

def insertFgdsMmapNode (head : List MmapNode) (newNode : MmapNode) : List MmapNode :=
  newNode :: head

def findFgdsMmapNode (head : List MmapNode) (gpuAddr len : Nat) : Option MmapNode :=
  head.find? (·.covers gpuAddr len)

/-- Unlinks the first node with the base address of `node`; `none` is the return
value -1 for a list without one. -/
def deleteFgdsMmapNode (head : List MmapNode) (node : MmapNode) : Option (List MmapNode) :=
  match head with
  | [] => none
  | current :: rest =>
    if current.gpuAddr = node.gpuAddr then some rest
    else (deleteFgdsMmapNode rest node).map (current :: ·)

/-! ## Segments -/

/-- `mmap_count` as `fgds_regmem` computes it. -/
def mmapCountOf (len : Nat) : Nat :=
  if len % fgdsMmapSegmentSize ≠ 0 then len / fgdsMmapSegmentSize + 1
  else len / fgdsMmapSegmentSize

def MmapNode.vaddr (nd : MmapNode) (i : Nat) : Nat := nd.vaddrs.getD i 0

/-- The length of segment `i`: `length_left = 0` means that the last one is full. -/
def MmapNode.segLen (nd : MmapNode) (i : Nat) : Nat :=
  if i + 1 = nd.mmapCount ∧ nd.lengthLeft ≠ 0 then nd.lengthLeft else fgdsMmapSegmentSize

/-- The host address of the byte at offset `off` of the region. -/
def MmapNode.hostAddr (nd : MmapNode) (off : Nat) : Nat :=
  nd.vaddr (off / fgdsMmapSegmentSize) + off % fgdsMmapSegmentSize

/-- Host addresses are consecutive as long as the offsets stay in one segment. -/
theorem MmapNode.hostAddr_add (nd : MmapNode) {p len j : Nat} (hj : j < len)
    (hs : (p + len - 1) / fgdsMmapSegmentSize = p / fgdsMmapSegmentSize) :
    nd.hostAddr p + j = nd.hostAddr (p + j) := by
  have hi : (p + j) / fgdsMmapSegmentSize = p / fgdsMmapSegmentSize := by
    simp only [fgdsMmapSegmentSize] at *
    omega
  simp only [MmapNode.hostAddr, hi]
  simp only [fgdsMmapSegmentSize] at *
  omega

/-- The host ranges of two segments do not meet. -/
def SegDisjoint (a b : MmapNode) (i j : Nat) : Prop :=
  a.vaddr i + a.segLen i ≤ b.vaddr j ∨ b.vaddr j + b.segLen j ≤ a.vaddr i

/-- A region that `fgds_regmem` accepted and mapped completely. The map loop runs
on an `int`, so all `mmap_count` segments are mapped only when the count is one. A
host mapping ends inside the address space, and the segments do not overlap. -/
structure MmapNode.Registered (nd : MmapNode) : Prop where
  aligned : nd.length % fgdsGpuPageSize = 0
  pos : 0 < nd.length
  count : nd.mmapCount = mmapCountOf nd.length
  left : nd.lengthLeft = nd.length % fgdsMmapSegmentSize
  mapped : nd.isMapped = true
  vaddrs : nd.vaddrs.length = nd.mmapCount
  countInt : nd.mmapCount < 2 ^ 31
  hostEnd : ∀ i < nd.mmapCount, nd.vaddr i + nd.segLen i < 2 ^ 64
  hostDisjoint : ∀ i < nd.mmapCount, ∀ j < nd.mmapCount, i ≠ j → SegDisjoint nd nd i j

/-- The count is the length divided by the segment size, rounded up. -/
theorem mmapCountOf_eq (len : Nat) : mmapCountOf len = (len + 1073741823) / 1073741824 := by
  unfold mmapCountOf
  split <;> rename_i h <;> simp only [fgdsMmapSegmentSize] at * <;> omega

theorem MmapNode.Registered.segIndex {nd : MmapNode} (h : nd.Registered) {o : Nat}
    (ho : o < nd.length) : o / fgdsMmapSegmentSize < nd.mmapCount := by
  rw [h.count, mmapCountOf_eq]
  simp only [fgdsMmapSegmentSize]
  omega

theorem MmapNode.Registered.segOffset {nd : MmapNode} (h : nd.Registered) {o : Nat}
    (ho : o < nd.length) :
    o % fgdsMmapSegmentSize < nd.segLen (o / fgdsMmapSegmentSize) := by
  have hc := h.count
  have hl := h.left
  rw [mmapCountOf_eq] at hc
  unfold MmapNode.segLen
  split <;> rename_i hlast <;> simp only [fgdsMmapSegmentSize] at * <;> omega

theorem MmapNode.Registered.length_lt {nd : MmapNode} (h : nd.Registered) :
    nd.length < 2 ^ 61 := by
  have hc := h.count
  have hi := h.countInt
  rw [mmapCountOf_eq] at hc
  omega

/-- Two different offsets of a region have different host addresses. -/
theorem MmapNode.Registered.hostAddr_inj {nd : MmapNode} (h : nd.Registered) {a b : Nat}
    (ha : a < nd.length) (hb : b < nd.length) (he : nd.hostAddr a = nd.hostAddr b) : a = b := by
  have hoa := h.segOffset ha
  have hob := h.segOffset hb
  simp only [MmapNode.hostAddr] at he
  by_cases hi : a / fgdsMmapSegmentSize = b / fgdsMmapSegmentSize
  · rw [hi] at he
    simp only [fgdsMmapSegmentSize] at *
    omega
  · have hd := h.hostDisjoint _ (h.segIndex ha) _ (h.segIndex hb) hi
    simp only [SegDisjoint] at hd
    omega

/-- A region of less than 1GB is one segment. -/
def oneSegment (self v g l : Nat) : MmapNode := ⟨self, [v], 1, g, l, l, true⟩

theorem oneSegment_registered (self v g l : Nat) (hl : 0 < l) (hlt : l < fgdsMmapSegmentSize)
    (hal : l % fgdsGpuPageSize = 0) (hv : v + l < 2 ^ 64) :
    (oneSegment self v g l).Registered := by
  have hmod : l % fgdsMmapSegmentSize = l := Nat.mod_eq_of_lt hlt
  refine ⟨hal, hl, ?_, hmod.symm, rfl, rfl, by simp [oneSegment], ?_, ?_⟩
  · simp only [fgdsMmapSegmentSize] at hlt
    simp only [oneSegment, mmapCountOf_eq]
    omega
  · rintro i hi
    obtain rfl : i = 0 := by simpa [oneSegment] using hi
    rw [MmapNode.segLen, if_pos ⟨rfl, by simp [oneSegment]; omega⟩]
    exact hv
  · intro i hi j hj hij
    simp only [oneSegment] at hi hj
    omega

/-! ## Devices with disjoint regions -/

def GpuDisjoint (a b : MmapNode) : Prop :=
  a.gpuAddr + a.length ≤ b.gpuAddr ∨ b.gpuAddr + b.length ≤ a.gpuAddr

def HostDisjoint (a b : MmapNode) : Prop :=
  ∀ i < a.mmapCount, ∀ j < b.mmapCount, SegDisjoint a b i j

instance : Std.Symm GpuDisjoint := ⟨fun _ _ h => h.symm⟩

instance : Std.Symm HostDisjoint := ⟨fun _ _ h i hi j hj => (h j hj i hi).symm⟩

theorem hostAddr_ne {a b : MmapNode} (ha : a.Registered) (hb : b.Registered)
    (h : HostDisjoint a b) {x y : Nat} (hx : x < a.length) (hy : y < b.length) :
    a.hostAddr x ≠ b.hostAddr y := by
  have hd := h _ (ha.segIndex hx) _ (hb.segIndex hy)
  have hox := ha.segOffset hx
  have hoy := hb.segOffset hy
  simp only [MmapNode.hostAddr, SegDisjoint] at *
  omega

/-- An opened device whose registrations are complete and pairwise disjoint. -/
structure OpenDevice where
  head : List MmapNode
  registered : ∀ nd ∈ head, nd.Registered
  gpuEnd : ∀ nd ∈ head, nd.gpuAddr + nd.length < 2 ^ 64
  gpuDisjoint : head.Pairwise GpuDisjoint
  hostDisjoint : head.Pairwise HostDisjoint

theorem MmapNode.covers_iff {nd : MmapNode} (hg : nd.gpuAddr + nd.length < 2 ^ 64) {a n : Nat}
    (hn : a + n < 2 ^ 64) :
    nd.covers a n = true ↔ nd.gpuAddr ≤ a ∧ a + n ≤ nd.gpuAddr + nd.length := by
  have he : u64 (nd.gpuAddr + nd.length) = nd.gpuAddr + nd.length :=
    u64_eq (by push_cast; rfl) hg
  have hu : u64 (a + n) = a + n := u64_eq (by push_cast; rfl) hn
  simp only [MmapNode.covers, Bool.and_eq_true, decide_eq_true_eq, ge_iff_le, he, hu]

/-- `gpuBuf` is a pointer into `nd`, and every lookup for at most `n` bytes there
selects `nd`. -/
def Selects (head : List MmapNode) (gpuBuf n : Nat) (nd : MmapNode) : Prop :=
  ∀ m, 0 < m → m ≤ n → findFgdsMmapNode head gpuBuf m = some nd

/-- A pointer into the newest region selects it. -/
theorem selects_newest {nd : MmapNode} (hend : nd.gpuAddr + nd.length < 2 ^ 64) {a n : Nat}
    (hl : nd.gpuAddr ≤ a) (hu : a + n ≤ nd.gpuAddr + nd.length) (rest : List MmapNode) :
    Selects (nd :: rest) a n nd := by
  intro m _ hm
  have hc : nd.covers a m = true := (MmapNode.covers_iff hend (by omega)).mpr ⟨hl, by omega⟩
  exact List.find?_cons_of_pos hc

/-- Among disjoint regions a pointer selects the one it points into. -/
theorem find_of_disjoint {head : List MmapNode}
    (hend : ∀ nd ∈ head, nd.gpuAddr + nd.length < 2 ^ 64) (hdisj : head.Pairwise GpuDisjoint)
    {nd : MmapNode} (hnd : nd ∈ head) {a n : Nat} (hn : 0 < n) (hl : nd.gpuAddr ≤ a)
    (hu : a + n ≤ nd.gpuAddr + nd.length) : findFgdsMmapNode head a n = some nd := by
  have hnend := hend nd hnd
  cases hf : findFgdsMmapNode head a n with
  | none =>
    have hc := List.find?_eq_none.mp hf nd hnd
    exact absurd ((MmapNode.covers_iff hnend (by omega)).mpr ⟨hl, hu⟩) hc
  | some nd' =>
    have hmem := List.mem_of_find?_eq_some hf
    have hcov : nd'.covers a n = true := by simpa using List.find?_some hf
    have hc := (MmapNode.covers_iff (hend nd' hmem) (by omega)).mp hcov
    by_cases he : nd' = nd
    · rw [he]
    · have hd : GpuDisjoint nd' nd := hdisj.forall hmem hnd he
      simp only [GpuDisjoint] at hd
      omega

theorem OpenDevice.selects (dev : OpenDevice) {nd : MmapNode} (hnd : nd ∈ dev.head)
    {a n : Nat} (hl : nd.gpuAddr ≤ a) (hu : a + n ≤ nd.gpuAddr + nd.length) :
    Selects dev.head a n nd :=
  fun _ hm _ => find_of_disjoint dev.gpuEnd dev.gpuDisjoint hnd hm hl (by omega)

end Fgds.Device
