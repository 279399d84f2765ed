import Fgds.Device
import Fgds.Remap

/-!
# Mapping GPU memory into a process

The kernel side of a registration, `module/fgds-mem.c`: `mmap` on the device makes a
VMA with an empty `fgds_mmap_buffer`, and the MAP ioctl pins the GPU pages, turns their
physical addresses into pages of the remapped BAR and inserts those into the VMA. All
failure points of `fgds_map_dev_addr_inner` are modelled, with what each leaves in the
buffer; `none` stands for a NULL dereference.

* `fgdsMapDevAddrInner_ok`: what a successful call inserted.
-/

namespace Fgds.KernelMap

open Fgds.Lib.CInt Fgds.Device Fgds.Remap

def eInval : Int := 22

/-! ## Buffers and address spaces -/

/-- `struct p2p_vmap`, without its callbacks. -/
structure P2pVmap where
  gpuvaddr : Nat
  size : Nat
  devPageNum : Nat
  deriving DecidableEq, Repr

/-- `struct fgds_mmap_buffer`. Pages are page frame numbers. -/
structure Mbuffer where
  cVaddr : Nat
  mapLen : Nat
  devAddr : Nat
  devLen : Nat
  devPageAddrs : Option (List Nat)
  devPageNum : Nat
  cpuPagesPerGpuPage : Nat
  ppages : Option (List Nat)
  hostPageNum : Nat
  vma : Bool
  dev : Option FgdsDev
  remap : Bool
  map : Option P2pVmap
  deriving DecidableEq, Repr

structure Vma where
  start : Nat
  stop : Nat
  privateData : Option Mbuffer

/-- The address space of a process: its VMAs, and the page frame mapped at each page. -/
structure Mm where
  vmas : List Vma
  pte : Nat → Option Nat

/-- The start and the end of each VMA. -/
def Mm.ranges (mm : Mm) : List (Nat × Nat) := mm.vmas.map fun v => (v.start, v.stop)

/-- `munmap` of whole mappings. -/
def Mm.unmap (mm : Mm) (addr len : Nat) : Mm where
  vmas := mm.vmas.filter fun v => decide (v.stop ≤ addr ∨ addr + len ≤ v.start)
  pte t := if addr / pageSize ≤ t ∧ t < (addr + len) / pageSize then none else mm.pte t

def vmaLookup (mm : Mm) (addr : Nat) : Option Vma :=
  mm.vmas.find? fun v => decide (v.start ≤ addr ∧ addr < v.stop)

/-- `fgds_lookup_mmap_buffer`: the VMA found, and its buffer. -/
def fgdsLookupMmapBuffer (mm : Mm) (cpuvaddr length : Nat) : Option (Vma × Mbuffer) :=
  if cpuvaddr = 0 then none
  else if cpuvaddr % pageSize ≠ 0 then none
  else
    match vmaLookup mm cpuvaddr with
    | none => none
    | some vma =>
      match vma.privateData with
      | none => none
      | some mbuffer =>
        if mbuffer.cVaddr ≠ cpuvaddr ∨ mbuffer.mapLen ≠ length then none
        else some (vma, mbuffer)

/-- `fgds_mmap` with `fgds_setup_mmap_buffer`, for a new VMA: the return value and the
buffer attached to it. -/
def fgdsMmap (dev : Option FgdsDev) (kzalloc : Bool) (start stop : Nat) : Int × Option Mbuffer :=
  match dev with
  | none => (-eInval, none)
  | some dev =>
    if ¬ kzalloc then (-eNoMem, none)
    else
      (0, some
        { cVaddr := start, mapLen := stop - start, devAddr := 0, devLen := 0
          devPageAddrs := none, devPageNum := 0, cpuPagesPerGpuPage := 0, ppages := none
          hostPageNum := 0, vma := true, dev := some dev, remap := false, map := none })

/-! ## `fgds_map_dev_addr` -/

/-- What the allocator, the GPU driver and the memory management answer to one MAP.
`getPages` gives the return value of `nvidia_p2p_get_pages` and the table it stored, with
a physical address or NULL for each page; `insertPages` the return value of
`vm_insert_pages` and how many pages it got to. -/
structure MapEnv where
  copyFromUser : Bool
  kzallocAddrs : Bool
  kmallocPages : Bool
  kmallocMap : Bool
  kmallocRegion : Bool
  getPages : Nat → Nat → Int × Option (List (Option Nat))
  insertPages : Nat → List Nat → Int × Nat

/-- The loop that reads the page table. -/
inductive PageRead where
  | oops
  | missing
  | addrs (l : List Nat)
  deriving DecidableEq, Repr

def readPages (table : Option (List (Option Nat))) (n : Nat) : PageRead :=
  if n = 0 then .addrs []
  else
    match table with
    | none => .oops
    | some es =>
      if (List.range n).all fun i => (es.getD i none).isSome then
        .addrs ((List.range n).map fun i => (es.getD i none).getD 0)
      else .missing

structure MapResult where
  ret : Int
  mbuffer : Mbuffer
  inserted : List Nat

/-- The label `out`. The array of physical addresses is freed through a local variable:
a pointer to it that is already in the buffer stays there. -/
def mapOut (mb : Mbuffer) (ret : Int) (inserted : List Nat) : MapResult :=
  ⟨ret, { mb with map := none, ppages := none }, inserted⟩

section Map

variable (p : Platform) (env : MapEnv)

/-- `pci_bar_off`. -/
def barOff (dev : FgdsDev) (addr : Nat) : Nat := u64 (addr - dev.paddr)

/-- The pages of the remapped BAR for one GPU page. -/
def gpuPagePages (dev : FgdsDev) (va addr : Nat) : List Nat :=
  (List.range (fgdsGpuPageSize / pageSize)).map fun (j : Nat) =>
    p.virtToPage (u64 (u64 (va + barOff dev addr) + j * pageSize))

/-- `fgds_map_dev_addr_inner`. Its loops count in an `int`; the allocations fail long
before that overflows. -/
def fgdsMapDevAddrInner (mb : Mbuffer) (devaddr devLen : Nat) : Option MapResult :=
  let mb := { mb with cpuPagesPerGpuPage := fgdsGpuPageSize / pageSize }
  match mb.dev with
  | none => some (mapOut mb (-eNoMem) [])
  | some dev =>
    match dev.pciMemVa with
    | none => some (mapOut mb (-eNoMem) [])
    | some va =>
      let nrDevPages := u64 (devLen + fgdsGpuPageSize - 1) / fgdsGpuPageSize
      let mb := { mb with devPageNum := nrDevPages }
      if devLen < fgdsGpuPageSize ∧ devLen % pageSize ≠ 0 then some (mapOut mb (-eInval) [])
      else
        let mb :=
          { mb with
            hostPageNum :=
              if devLen < fgdsGpuPageSize then u64 (devLen + pageSize - 1) / pageSize
              else u64 (nrDevPages * (fgdsGpuPageSize / pageSize) : Nat) }
        if ¬ env.kzallocAddrs then some (mapOut mb (-eNoMem) [])
        else if ¬ env.kmallocPages then some (mapOut mb (-eNoMem) [])
        else if ¬ env.kmallocMap then some (mapOut mb (-eNoMem) [])
        else if ¬ env.kmallocRegion then some (mapOut mb (-eNoMem) [])
        else
          let got := env.getPages devaddr (u64 (fgdsGpuPageSize * nrDevPages : Nat))
          match readPages got.2 nrDevPages with
          | .oops => none
          | .missing => some (mapOut mb got.1 [])
          | .addrs addrs =>
            let mb := { mb with devPageAddrs := some addrs }
            if addrs.any fun a => barOff dev a > u64 (dev.size - fgdsGpuPageSize) then
              some (mapOut mb (-eInval) [])
            else
              let ppages := addrs.flatMap (gpuPagePages p dev va)
              let ins := env.insertPages mb.cVaddr (ppages.take mb.hostPageNum)
              if ins.1 ≠ 0 then
                some (mapOut mb ins.1 ((ppages.take mb.hostPageNum).take ins.2))
              else
                some ⟨0,
                  { mb with
                    ppages := some ppages, remap := true
                    map := some ⟨devaddr, devLen, nrDevPages⟩ },
                  (ppages.take mb.hostPageNum).take ins.2⟩

/-- The pages inserted one after the other from `addr` on. -/
def insertAt (pte : Nat → Option Nat) (addr : Nat) (pages : List Nat) : Nat → Option Nat :=
  fun t =>
    if addr / pageSize ≤ t ∧ t < addr / pageSize + pages.length then
      pages[t - addr / pageSize]?
    else pte t

def Mm.update (mm : Mm) (vma : Vma) (mb : Mbuffer) (inserted : List Nat) : Mm where
  vmas := mm.vmas.map fun v => if v.start = vma.start then { v with privateData := some mb } else v
  pte := insertAt mm.pte mb.cVaddr inserted

/-- `fgds_map_dev_addr`. -/
def fgdsMapDevAddr (mm : Mm) (devaddr devLen cpuvaddr length : Nat) : Option (Int × Mm) :=
  match fgdsLookupMmapBuffer mm cpuvaddr length with
  | none => some (-eInval, mm)
  | some (vma, mbuffer) =>
    if ¬ mbuffer.vma ∨ devaddr ≤ length then some (-eInval, mm)
    else
      (fgdsMapDevAddrInner p env { mbuffer with devAddr := devaddr, devLen } devaddr devLen).map
        fun res => (res.ret, mm.update vma res.mbuffer res.inserted)

end Map

/-! ## What a successful call inserted -/

/-- The GPU driver and the memory management do what they document: pages are pinned for
an aligned range only, and the table holds the physical address of each page of it in
order; `vm_insert_pages` returns 0 when it inserted all pages. -/
structure MapEnv.Honest (env : MapEnv) (phys : Nat → Nat) : Prop where
  pages : ∀ va n es, (env.getPages va n).2 = some es → va % fgdsGpuPageSize = 0 ∧
    es = (List.range (n / fgdsGpuPageSize)).map fun i => some (phys (va / fgdsGpuPageSize + i))
  insert : ∀ v pages, (env.insertPages v pages).1 = 0 →
    (env.insertPages v pages).2 = pages.length

theorem readPages_table (g : Nat → Nat) {n : Nat} :
    readPages (some ((List.range n).map fun i => some (g i))) n =
      .addrs ((List.range n).map g) := by
  unfold readPages
  split
  · rename_i hn
    simp [hn]
  · have hget : ∀ i ∈ List.range n, ((List.range n).map fun i => some (g i)).getD i none =
        some (g i) := by
      intro i hi
      rw [List.mem_range] at hi
      simp [List.getD, hi]
    have hall : ((List.range n).all fun i =>
        (((List.range n).map fun i => some (g i)).getD i none).isSome) = true := by
      rw [List.all_eq_true]
      intro i hi
      rw [hget i hi, Option.isSome_some]
    simp only [hall, ↓reduceIte, PageRead.addrs.injEq]
    apply List.map_congr_left
    intro i hi
    rw [hget i hi, Option.getD_some]

/-- The pages that show the GPU pages from `devaddr` on. -/
def shownPages (p : Platform) (dev : FgdsDev) (va : Nat) (phys : Nat → Nat) (devaddr nr : Nat) :
    List Nat :=
  ((List.range nr).map fun i => phys (devaddr / fgdsGpuPageSize + i)).flatMap
    (gpuPagePages p dev va)

theorem shownPages_length (p : Platform) (dev : FgdsDev) (va : Nat) (phys : Nat → Nat)
    (devaddr nr : Nat) : (shownPages p dev va phys devaddr nr).length =
      nr * (fgdsGpuPageSize / pageSize) := by
  simp [shownPages, gpuPagePages, List.length_flatMap, Function.comp_def]

/-- A check of the call stops it, or the call goes on. -/
theorem mapOut_check {c : Prop} [Decidable c] {mb : Mbuffer} {ret : Int} {inserted : List Nat}
    {rest : Option MapResult} {res : MapResult}
    (h : (if c then some (mapOut mb ret inserted) else rest) = some res) :
    c ∧ mapOut mb ret inserted = res ∨ ¬ c ∧ rest = some res := by
  by_cases hc : c
  · rw [if_pos hc] at h
    exact .inl ⟨hc, Option.some.inj h⟩
  · rw [if_neg hc] at h
    exact .inr ⟨hc, h⟩

/-- A call that returned 0 has passed the check, if the check returns something else. -/
theorem mapOut_passed {c : Prop} [Decidable c] {mb : Mbuffer} {ret : Int} {inserted : List Nat}
    {rest : Option MapResult} {res : MapResult}
    (h : (if c then some (mapOut mb ret inserted) else rest) = some res) (hret : res.ret = 0)
    (hne : c → ret ≠ 0) : ¬ c ∧ rest = some res := by
  rcases mapOut_check h with ⟨hc, rfl⟩ | hpass
  · exact absurd hret (hne hc)
  · exact hpass

/-! The numbers of the call for a length of whole GPU pages. -/

section WholePages

variable {devLen : Nat} (hlen : devLen % fgdsGpuPageSize = 0) (hlt : devLen < 2 ^ 62)
include hlen hlt

theorem nrDevPages_whole :
    u64 (devLen + fgdsGpuPageSize - 1) / fgdsGpuPageSize = devLen / fgdsGpuPageSize := by
  have hsum : u64 ((devLen : Int) + fgdsGpuPageSize - 1) = devLen + fgdsGpuPageSize - 1 := by
    simp only [fgdsGpuPageSize]
    exact u64_eq (by omega) (by omega)
  rw [hsum]
  simp only [fgdsGpuPageSize] at *
  omega

theorem devBytes_whole : u64 (fgdsGpuPageSize * (devLen / fgdsGpuPageSize) : Nat) = devLen := by
  apply u64_eq
  · simp only [fgdsGpuPageSize] at *
    omega
  · omega

omit hlen in
theorem hostPageNum_whole : u64 (devLen / fgdsGpuPageSize * (fgdsGpuPageSize / pageSize) : Nat) =
    devLen / fgdsGpuPageSize * (fgdsGpuPageSize / pageSize) := by
  apply u64_eq rfl
  simp only [fgdsGpuPageSize, pageSize]
  omega

end WholePages

section Ok

variable {p : Platform} {env : MapEnv} {phys : Nat → Nat} {mb : Mbuffer} {dev : FgdsDev}
  {va devaddr devLen : Nat} {res : MapResult}

/-- A return value of 0 for whole GPU pages: the range is aligned, all its pages lie in
the BAR, and the pages that show them were inserted. -/
theorem fgdsMapDevAddrInner_ok (henv : env.Honest phys) (hdev : mb.dev = some dev)
    (hva : dev.pciMemVa = some va) (hlen : devLen % fgdsGpuPageSize = 0) (hpos : 0 < devLen)
    (hlt : devLen < 2 ^ 62)
    (h : fgdsMapDevAddrInner p env mb devaddr devLen = some res) (hret : res.ret = 0) :
    devaddr % fgdsGpuPageSize = 0 ∧
      (∀ i < devLen / fgdsGpuPageSize,
        barOff dev (phys (devaddr / fgdsGpuPageSize + i)) ≤ u64 (dev.size - fgdsGpuPageSize)) ∧
      res.inserted = shownPages p dev va phys devaddr (devLen / fgdsGpuPageSize) ∧
      res.mbuffer.cVaddr = mb.cVaddr := by
  have hge : ¬ devLen < fgdsGpuPageSize := by
    simp only [fgdsGpuPageSize] at *
    omega
  have hnz : devLen / fgdsGpuPageSize ≠ 0 := by
    simp only [fgdsGpuPageSize] at *
    omega
  unfold fgdsMapDevAddrInner at h
  simp only [hdev, hva, nrDevPages_whole hlen hlt, hge, false_and, ↓reduceIte,
    devBytes_whole hlen hlt, hostPageNum_whole hlt] at h
  -- the allocations
  obtain ⟨_, h⟩ := mapOut_passed h hret fun _ => by decide
  obtain ⟨_, h⟩ := mapOut_passed h hret fun _ => by decide
  obtain ⟨_, h⟩ := mapOut_passed h hret fun _ => by decide
  obtain ⟨_, h⟩ := mapOut_passed h hret fun _ => by decide
  -- the page table
  cases htable : (env.getPages devaddr devLen).2 with
  | none => simp [htable, readPages, hnz] at h
  | some es =>
    obtain ⟨hal, rfl⟩ := henv.pages devaddr devLen es htable
    rw [htable, readPages_table] at h
    obtain ⟨hany, h⟩ := mapOut_passed h hret fun _ => by decide
    obtain ⟨hins, h⟩ := mapOut_passed h hret id
    cases h
    have hall := henv.insert _ _ (not_not.mp hins)
    refine ⟨hal, fun i hi => ?_, ?_, rfl⟩
    · simp only [List.any_eq_true, List.mem_map, List.mem_range, decide_eq_true_eq,
        not_exists, not_and] at hany
      exact Nat.le_of_not_lt (hany _ ⟨i, hi, rfl⟩)
    · have hlength := shownPages_length p dev va phys devaddr (devLen / fgdsGpuPageSize)
      rw [hall, List.take_length]
      exact List.take_of_length_le (Nat.le_of_eq hlength)

end Ok

/-! ## The page behind a host address -/

section Pages

variable {p : Platform} {dev : FgdsDev} {va : Nat} {phys : Nat → Nat} {devaddr : Nat}

theorem shownPages_succ (p : Platform) (dev : FgdsDev) (va : Nat) (phys : Nat → Nat)
    (devaddr nr : Nat) : shownPages p dev va phys devaddr (nr + 1) =
      shownPages p dev va phys devaddr nr ++
        gpuPagePages p dev va (phys (devaddr / fgdsGpuPageSize + nr)) := by
  simp [shownPages, List.range_succ]

/-- The page at position `o` of the range: the GPU page first, then the page in it. -/
theorem shownPages_get {nr o : Nat} (ho : o < nr * fgdsGpuPageSize) :
    (shownPages p dev va phys devaddr nr)[o / pageSize]? =
      some (p.virtToPage (u64 (u64 (va + barOff dev
        (phys (devaddr / fgdsGpuPageSize + o / fgdsGpuPageSize))) +
          (o % fgdsGpuPageSize / pageSize : Nat) * pageSize))) := by
  induction nr with
  | zero => omega
  | succ nr ih =>
    have hlen := shownPages_length p dev va phys devaddr nr
    rw [shownPages_succ]
    by_cases hlt : o < nr * fgdsGpuPageSize
    · rw [List.getElem?_append_left, ih hlt]
      rw [hlen]
      simp only [fgdsGpuPageSize, pageSize] at *
      omega
    · have hi : o / fgdsGpuPageSize = nr := by
        simp only [fgdsGpuPageSize] at *
        omega
      have hj : o / pageSize - nr * (fgdsGpuPageSize / pageSize) =
          o % fgdsGpuPageSize / pageSize := by
        simp only [fgdsGpuPageSize, pageSize] at *
        omega
      have hrange : o % fgdsGpuPageSize / pageSize < fgdsGpuPageSize / pageSize := by
        simp only [fgdsGpuPageSize, pageSize]
        omega
      rw [List.getElem?_append_right, hlen, hj, hi]
      · simp [gpuPagePages, hrange]
      · rw [hlen]
        simp only [fgdsGpuPageSize, pageSize] at *
        omega

/-- A page that passed the check of `fgds_map_dev_addr_inner` lies inside the BAR. -/
theorem barOff_inside (hm : Mapped p dev va) (hsize : fgdsGpuPageSize ≤ dev.size) {a : Nat}
    (ha : a < 2 ^ 64) (h : barOff dev a ≤ u64 (dev.size - fgdsGpuPageSize)) :
    dev.paddr ≤ a ∧ barOff dev a = a - dev.paddr ∧
      a - dev.paddr + fgdsGpuPageSize ≤ dev.size := by
  have hbus := hm.bus
  have hmax : u64 ((dev.size : Int) - fgdsGpuPageSize) = dev.size - fgdsGpuPageSize := by
    simp only [fgdsGpuPageSize] at *
    exact u64_eq (by omega) (by omega)
  rw [hmax] at h
  have hle : dev.paddr ≤ a := by
    simp only [barOff, u64, fgdsGpuPageSize] at *
    omega
  have hoff : barOff dev a = a - dev.paddr := u64_eq (by omega) (by omega)
  exact ⟨hle, hoff, by omega⟩

/-- On a page inside the BAR the kernel addresses do not wrap, and their pages are those
of the physical addresses. -/
theorem shownPages_page (hm : Mapped p dev va) (hsize : fgdsGpuPageSize ≤ dev.size)
    (hphys : ∀ i, phys i < 2 ^ 64 ∧ phys i % pageSize = 0) {nr o a : Nat}
    (ho : o < nr * fgdsGpuPageSize)
    (ha : phys (devaddr / fgdsGpuPageSize + o / fgdsGpuPageSize) = a)
    (hbar : barOff dev a ≤ u64 (dev.size - fgdsGpuPageSize)) :
    (shownPages p dev va phys devaddr nr)[o / pageSize]? = some (p.virtToPage
        (va + (a - dev.paddr + o % fgdsGpuPageSize / pageSize * pageSize))) ∧
      p.virtToPage (va + (a - dev.paddr + o % fgdsGpuPageSize / pageSize * pageSize)) * pageSize +
        o % pageSize = a + o % fgdsGpuPageSize ∧
      dev.paddr ≤ a ∧ a - dev.paddr + o % fgdsGpuPageSize < dev.size := by
  have hal := hphys (devaddr / fgdsGpuPageSize + o / fgdsGpuPageSize)
  rw [ha] at hal
  have hkernel := hm.kernel
  obtain ⟨hlo, hoff, hin⟩ := barOff_inside hm hsize hal.1 hbar
  have hva : u64 (u64 (va + (a - dev.paddr : Nat)) +
      (o % fgdsGpuPageSize / pageSize : Nat) * pageSize) =
      va + (a - dev.paddr + o % fgdsGpuPageSize / pageSize * pageSize) := by
    have hbase : u64 ((va : Int) + (a - dev.paddr : Nat)) = va + (a - dev.paddr) :=
      u64_eq (by omega) (by simp only [fgdsGpuPageSize] at *; omega)
    rw [hbase]
    simp only [fgdsGpuPageSize, pageSize] at *
    exact u64_eq (by omega) (by omega)
  have hpage := hm.page (a - dev.paddr + o % fgdsGpuPageSize / pageSize * pageSize) (by
    simp only [fgdsGpuPageSize, pageSize] at *
    omega)
  refine ⟨?_, ?_, hlo, ?_⟩
  · rw [shownPages_get ho, ha, hoff, hva]
  · rw [hpage]
    simp only [fgdsGpuPageSize, pageSize] at *
    omega
  · simp only [fgdsGpuPageSize] at *
    omega

/-- Host address `x` shows the GPU byte `g`: the page mapped there is the page of the BAR
at the offset of that byte, and `x` is the same place in the page. -/
structure ShowsGpu (p : Platform) (dev : FgdsDev) (va : Nat) (phys : Nat → Nat) (mm : Mm)
    (x g : Nat) : Prop where
  inBar : dev.paddr ≤ phys (g / fgdsGpuPageSize) ∧
    phys (g / fgdsGpuPageSize) - dev.paddr + g % fgdsGpuPageSize < dev.size
  page : mm.pte (x / pageSize) = some (p.virtToPage
    (va + (phys (g / fgdsGpuPageSize) - dev.paddr + g % fgdsGpuPageSize / pageSize * pageSize)))
  byte : p.virtToPage (va + (phys (g / fgdsGpuPageSize) - dev.paddr +
      g % fgdsGpuPageSize / pageSize * pageSize)) * pageSize + x % pageSize =
    phys (g / fgdsGpuPageSize) + g % fgdsGpuPageSize

/-- After a successful MAP of whole GPU pages every byte of the range is shown, and
nothing else in the address space changed but the buffer. -/
theorem fgdsMapDevAddr_shows (hm : Mapped p dev va) (hsize : fgdsGpuPageSize ≤ dev.size)
    (hphys : ∀ i, phys i < 2 ^ 64 ∧ phys i % pageSize = 0) {env : MapEnv}
    (henv : env.Honest phys) {mm mm' : Mm} {cpuvaddr len : Nat} {vma : Vma} {mb : Mbuffer}
    (hlook : fgdsLookupMmapBuffer mm cpuvaddr len = some (vma, mb)) (hdev : mb.dev = some dev)
    (hc : mb.cVaddr = cpuvaddr) (hal : cpuvaddr % pageSize = 0)
    (hlen : len % fgdsGpuPageSize = 0) (hpos : 0 < len) (hlt : len < 2 ^ 62)
    (h : fgdsMapDevAddr p env mm devaddr len cpuvaddr len = some (0, mm')) :
    (∀ o < len, ShowsGpu p dev va phys mm' (cpuvaddr + o) (devaddr + o)) ∧
      (∀ t, t < cpuvaddr / pageSize ∨ (cpuvaddr + len) / pageSize ≤ t → mm'.pte t = mm.pte t) ∧
      mm'.ranges = mm.ranges := by
  simp only [fgdsMapDevAddr, hlook] at h
  split at h
  · simp [eInval] at h
  · obtain ⟨res, hres, hmm⟩ := Option.map_eq_some_iff.mp h
    simp only [Prod.mk.injEq] at hmm
    obtain ⟨hret, rfl⟩ := hmm
    have hdev' : ({ mb with devAddr := devaddr, devLen := len } : Mbuffer).dev = some dev := hdev
    obtain ⟨hda, hbar, hins, hcv⟩ :=
      fgdsMapDevAddrInner_ok henv hdev' hm.mem hlen hpos hlt hres hret
    have hcv' : res.mbuffer.cVaddr = cpuvaddr := hcv.trans hc
    have hn : res.inserted.length * pageSize = len := by
      rw [hins, shownPages_length]
      simp only [fgdsGpuPageSize, pageSize] at *
      omega
    refine ⟨fun o ho => ?_, fun t ht => ?_, ?_⟩
    · have hg : (devaddr + o) / fgdsGpuPageSize = devaddr / fgdsGpuPageSize + o / fgdsGpuPageSize ∧
          (devaddr + o) % fgdsGpuPageSize = o % fgdsGpuPageSize := by
        simp only [fgdsGpuPageSize] at *
        omega
      have hi : o / fgdsGpuPageSize < len / fgdsGpuPageSize := by
        simp only [fgdsGpuPageSize] at *
        omega
      have hnr : o < len / fgdsGpuPageSize * fgdsGpuPageSize := by
        simp only [fgdsGpuPageSize] at *
        omega
      obtain ⟨hget, hbyte, hlo, hin⟩ := shownPages_page hm hsize hphys hnr rfl (hbar _ hi)
      have hx : (cpuvaddr + o) / pageSize = cpuvaddr / pageSize + o / pageSize ∧
          (cpuvaddr + o) % pageSize = o % pageSize ∧ o / pageSize < res.inserted.length := by
        simp only [pageSize] at *
        omega
      refine ⟨?_, ?_, ?_⟩
      · rw [hg.1, hg.2]
        exact ⟨hlo, hin⟩
      · simp only [Mm.update, insertAt, hcv', hx.1, hg.1, hg.2]
        rw [if_pos ⟨Nat.le_add_right _ _, Nat.add_lt_add_left hx.2.2 _⟩, Nat.add_sub_cancel_left,
          hins, hget]
      · rw [hg.1, hg.2, hx.2.1, hbyte]
    · simp only [Mm.update, insertAt, hcv']
      rw [if_neg]
      simp only [pageSize] at *
      omega
    · simp only [Mm.update, Mm.ranges, List.map_map]
      apply List.map_congr_left
      intro v _
      simp only [Function.comp_apply]
      split <;> rfl

end Pages

end Fgds.KernelMap
