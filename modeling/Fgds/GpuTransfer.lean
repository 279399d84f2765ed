import Fgds.GpuMap
import Fgds.Transfer

/-!
# Transfers end in GPU memory

The transfers of `fgds_read` and `fgds_write` name host addresses. The page table, as the kernel
module filled it, turns a host address into an address on the bus, and the pages of the GPU's BAR
on the bus are its memory. Here the whole way is one statement about bus addresses.

* `translate`: the page table as a function on bytes;
* `OnGpu.node`: every byte of a registered region is translated to its GPU byte;
* `busReads_effect`: what the reads of one call leave on the bus;
* `fgdsRead_gpu`, `fgdsWrite_gpu`: the bytes go between the file and GPU memory;
* `gpu_write_read_back`: what one process wrote from its GPU, another reads into its own.
-/

namespace Fgds.GpuTransfer

open Fgds.Lib.CInt Fgds.Lib.Overlay Fgds.Lib.Tiling Fgds.Device Fgds.Uring Fgds.Pipeline
open Fgds.ReadWrite Fgds.Storage Fgds.Transfer Fgds.Remap Fgds.KernelMap Fgds.Regmem Fgds.GpuMap

/-! ## Addresses -/

/-- The bus address behind a host address. -/
def translate (mm : Mm) (x : Nat) : Option Nat :=
  (mm.pte (x / pageSize)).map fun pfn => pfn * pageSize + x % pageSize

/-- The bus address of a GPU byte; `phys` are the addresses of the GPU pages. -/
def gpuBus (phys : Nat → Nat) (g : Nat) : Nat := phys (g / fgdsGpuPageSize) + g % fgdsGpuPageSize

/-- The GPU pages of the `l` bytes at `a` do not overlap on the bus. -/
def PagesApart (phys : Nat → Nat) (a l : Nat) : Prop :=
  ∀ g g', a ≤ g → g < a + l → a ≤ g' → g' < a + l → g / fgdsGpuPageSize ≠ g' / fgdsGpuPageSize →
    phys (g / fgdsGpuPageSize) + fgdsGpuPageSize ≤ phys (g' / fgdsGpuPageSize) ∨
      phys (g' / fgdsGpuPageSize) + fgdsGpuPageSize ≤ phys (g / fgdsGpuPageSize)

theorem gpuBus_inj {phys : Nat → Nat} {a l : Nat} (h : PagesApart phys a l) {o o' : Nat}
    (ho : o < l) (ho' : o' < l) (he : gpuBus phys (a + o) = gpuBus phys (a + o')) : o = o' := by
  unfold gpuBus at he
  by_cases hpage : (a + o) / fgdsGpuPageSize = (a + o') / fgdsGpuPageSize
  · rw [hpage] at he
    simp only [fgdsGpuPageSize] at *
    omega
  · have hapart := h _ _ (Nat.le_add_right a o) (by omega) (Nat.le_add_right a o') (by omega) hpage
    simp only [fgdsGpuPageSize] at *
    omega

theorem translate_shows {p : Platform} {dev : FgdsDev} {va : Nat} {phys : Nat → Nat} {mm : Mm}
    {x g : Nat} (h : ShowsGpu p dev va phys mm x g) : translate mm x = some (gpuBus phys g) := by
  rw [translate, h.page, Option.map_some, h.byte, gpuBus]

/-! ## What the reads leave on the bus -/

/-- The bytes on the bus that a read which returned `res` stores. -/
def busStore (mm : Mm) (files : Int → File) (c : Cqe) (y : Nat) : Option UInt8 :=
  ((List.range c.res.toNat).find? fun j => decide (translate mm (c.sqe.addr + j) = some y)).map
    fun j => (files c.sqe.fd).byte (c.sqe.off + j)

/-- The bus after a list of completed reads. -/
def busReads (mm : Mm) (files : Int → File) (bus : Nat → UInt8) (log : List Cqe) : Nat → UInt8 :=
  overlayAll bus (log.map (busStore mm files))

theorem busStore_some {mm : Mm} {files : Int → File} {c : Cqe} {y : Nat} {v : UInt8}
    (h : busStore mm files c y = some v) :
    ∃ j : Nat, (j : Int) < c.res ∧ translate mm (c.sqe.addr + j) = some y ∧
      v = (files c.sqe.fd).byte (c.sqe.off + j) := by
  obtain ⟨j, hfind, rfl⟩ := Option.map_eq_some_iff.mp h
  have hj := List.mem_range.mp (List.mem_of_find?_eq_some hfind)
  have htr := List.find?_some hfind
  rw [decide_eq_true_eq] at htr
  exact ⟨j, by omega, htr, rfl⟩

theorem busStore_isSome {mm : Mm} (files : Int → File) {c : Cqe} {y j : Nat}
    (hj : (j : Int) < c.res)
    (h : translate mm (c.sqe.addr + j) = some y) : (busStore mm files c y).isSome := by
  rw [busStore, Option.isSome_map, List.find?_isSome]
  exact ⟨j, List.mem_range.mpr (by omega), decide_eq_true h⟩

section Reads

variable {nd : MmapNode} {mm : Mm} {place : Nat → Nat} {fd : Int} {b f : Nat}

/-- The bytes of a region are translated to `place`, one by one. -/
structure Placed (nd : MmapNode) (mm : Mm) (place : Nat → Nat) : Prop where
  translate : ∀ o < nd.length, translate mm (nd.hostAddr o) = some (place o)
  inj : ∀ o < nd.length, ∀ o' < nd.length, place o = place o' → o = o'

/-- **Reads.** The bytes of the window, where they are on the bus, are those of the file. -/
theorem busReads_effect (hplaced : Placed nd mm place) {n S : Nat} (hin : b + n ≤ nd.length)
    {log cs : List Cqe} (hperm : cs.Perm log)
    (ht : Tiles (fun c => c.sqe.len) (ReadAt nd fd b f S) b (b + n) cs) (files : Int → File)
    (bus : Nat → UInt8) :
    (∀ k < min n (S - f), busReads mm files bus log (place (b + k)) = (files fd).byte (f + k)) ∧
      ∀ y, (∀ k < min n (S - f), y ≠ place (b + k)) → busReads mm files bus log y = bus y := by
  refine overlayAll_image ?_ ?_ ?_ bus
  · intro i hi j hj he
    have := hplaced.inj _ (by omega) _ (by omega) he
    omega
  · intro s hs y v hv
    obtain ⟨c, hc, rfl⟩ := List.mem_map.mp hs
    obtain ⟨p, hp, hq, _, hat⟩ := tiles_mem ht (hperm.mem_iff.mpr hc)
    obtain ⟨j, hj, htr, hv⟩ := busStore_some hv
    have hres := hat.res
    have haddr : c.sqe.addr + j = nd.hostAddr (p + j) := by
      rw [hat.addr, nd.hostAddr_add (by omega) hat.segment]
    rw [haddr, hplaced.translate _ (by omega), Option.some.injEq] at htr
    refine ⟨p - b + j, by omega, ?_, ?_⟩
    · rw [← htr]
      congr 1
      omega
    · rw [hv, hat.fd, hat.off (by omega), Nat.add_assoc]
  · intro k hk
    obtain ⟨c, hc, p, hbp, hat, hp, hq⟩ := tiles_cover ht (Nat.le_add_right b k) (by omega)
    have hres := hat.res
    have hj : b + k - p < c.sqe.len := by omega
    have haddr : c.sqe.addr + (b + k - p) = nd.hostAddr (b + k) := by
      rw [hat.addr, nd.hostAddr_add hj hat.segment]
      congr 1
      omega
    refine ⟨_, List.mem_map_of_mem (hperm.mem_iff.mp hc), ?_⟩
    refine busStore_isSome files (j := b + k - p) (by omega) ?_
    rw [haddr]
    exact hplaced.translate _ (by omega)

end Reads

/-! ## A registered region -/

/-- The host memory through the page table; what is not mapped reads as zero. -/
def hostView (mm : Mm) (bus : Nat → UInt8) (x : Nat) : UInt8 := ((translate mm x).map bus).getD 0

/-- The module remapped the BAR, `fgds_regmem` registered `l` bytes at `a` and the kernel served
its calls; `mm` is the address space it left. -/
structure OnGpu (p : Platform) (phys : Nat → Nat) (filp : Int → Option FgdsDev) (os : Os)
    (mb : MmapBuffer) (d : Int) (a l : Nat) (mm : Mm) : Prop where
  linear : p.Linear
  device : ∃ dev₀ dev, 0 < dev₀.size ∧ dev₀.paddr + dev₀.size ≤ 2 ^ 63 ∧
    fgdsDevmMemremap p dev₀ = (0, dev) ∧ fgdsGpuPageSize ≤ dev.size ∧ filp mb.devFd = some dev
  pages : ∀ i, phys i < 2 ^ 64 ∧ phys i % pageSize = 0
  apart : PagesApart phys a l
  pos : 0 < l
  count : mmapCountOf l < 2 ^ 31
  fits : a + l < 2 ^ 64
  ret : (fgdsRegmem os mb d a l).ret = 0
  served : ∃ mm₀, Served p phys filp mm₀ (fgdsRegmem os mb d a l).calls mm

section Region

variable {p : Platform} {phys : Nat → Nat} {filp : Int → Option FgdsDev} {os : Os}
  {mb : MmapBuffer} {d : Int} {a l : Nat} {mm : Mm}

/-- Every byte of the region is translated to its GPU byte. -/
theorem OnGpu.node (h : OnGpu p phys filp os mb d a l mm) :
    ∃ nd, nd.Registered ∧ nd.length = l ∧
      Selects (fgdsRegmem os mb d a l).buffer.head a l nd ∧
      Placed nd mm fun o => gpuBus phys (a + o) := by
  obtain ⟨dev₀, dev, hpos, hbus, hremap, hsize, hfd⟩ := h.device
  obtain ⟨mm₀, hserved⟩ := h.served
  obtain ⟨va, hm, _⟩ := fgdsDevmMemremap_mapped h.linear hpos hbus hremap
  obtain ⟨nd, hlink⟩ := fgdsRegmem_linked h.ret
  have hcount : nd.mmapCount < 2 ^ 31 := hlink.count ▸ h.count
  rw [hlink.calls hcount] at hserved
  have hs : Shown p dev va phys mm₀ mm (mappings nd) := by
    have hfile : filp { mb with deviceId := d }.devFd = some dev := hfd
    refine served_shows hm hsize h.pages hfile (fun m hmem => ?_) hserved
    obtain ⟨i, _, rfl⟩ := List.mem_map.mp hmem
    exact segLen_aligned (hlink.length ▸ hlink.aligned) (hlink.length ▸ hlink.left) i
  have hreg := hlink.registered h.pos hcount (mapsApart_of_shown hlink hcount hs)
  have hfits := h.fits
  have hgpu := hlink.gpuAddr
  have hlength := hlink.length
  refine ⟨nd, hreg, hlength, ?_, fun o ho => ?_, fun o ho o' ho' he => ?_⟩
  · rw [hlink.buffer]
    exact selects_newest (by omega) (by omega) (by omega) mb.head
  · have hshow := hs.shows (mapping nd (o / fgdsMmapSegmentSize))
      (List.mem_map_of_mem (List.mem_range.mpr (hreg.segIndex ho))) _ (hreg.segOffset ho)
    have hbase : (mapping nd (o / fgdsMmapSegmentSize)).gpu =
        a + o / fgdsMmapSegmentSize * fgdsMmapSegmentSize := by
      rw [mapping, hgpu]
      simp only [fgdsMmapSegmentSize]
      exact u64_eq (by push_cast; rfl) (by omega)
    rw [hbase, Nat.add_assoc, Nat.div_add_mod'] at hshow
    exact translate_shows hshow
  · exact gpuBus_inj h.apart (hlength ▸ ho) (hlength ▸ ho') he

variable (fd : Int) (owner : Nat) {b n f : Nat} {k : Kernel} {ring : Ring}

/-- The window of a request on the base of the region. -/
def window {nd : MmapNode} {head : List MmapNode} (f : Nat) (hreg : nd.Registered)
    (hlen : nd.length = l) (hsel : Selects head a l nd) (hin : b + n ≤ l) :
    Window head ⟨fd, a, b, n, f, owner⟩ where
  nd := nd
  b := b
  n := n
  bufOffset := rfl
  nbyte := rfl
  registered := hreg
  inside := hlen ▸ hin
  selects := fun m hm hmn => hsel m hm (by omega)

/-- **Reading into the GPU.** `fgds_read` on a window of a served registration returns the number
of bytes the file has there, and they are in GPU memory at `a + b`. No other byte on the bus
changed. -/
theorem fgdsRead_gpu (h : OnGpu p phys filp os mb d a l mm) (hn : 1 ≤ n)
    (hin : b + n ≤ l) (hf : f < 2 ^ 63) (files : Int → File) (hk : FullReads k (files fd).size)
    (hidle : Ring.Idle ring) (bus : Nat → UInt8) :
    ∃ res, fgdsRead (fgdsRegmem os mb d a l).buffer.head k ring ⟨fd, a, b, n, f, owner⟩ =
        some res ∧
      res.ret = (min n ((files fd).size - f) : Nat) ∧
      (∀ j < min n ((files fd).size - f),
        busReads mm files bus res.log (gpuBus phys (a + b + j)) = (files fd).byte (f + j)) ∧
      ∀ y, (∀ j < min n ((files fd).size - f), y ≠ gpuBus phys (a + b + j)) →
        busReads mm files bus res.log y = bus y := by
  obtain ⟨nd, hreg, hlen, hsel, hplaced⟩ := h.node
  obtain ⟨res, cs, hres, _, hret, hperm, ht⟩ :=
    fgdsRead_window (window fd owner f hreg hlen hsel hin) rfl hf hn hk hidle
  obtain ⟨hwindow, hrest⟩ := busReads_effect hplaced (hlen ▸ hin) hperm ht files bus
  simp only [← Nat.add_assoc] at hwindow hrest
  exact ⟨res, hres, hret, hwindow, hrest⟩

/-- The bytes of GPU memory at `a + b` are written to the file at `f`. -/
theorem fgdsWrite_gpu (h : OnGpu p phys filp os mb d a l mm) (hn : 1 ≤ n) (hin : b + n ≤ l)
    (hf : f < 2 ^ 63) (files : Int → File) (hk : FullWrites k) (hidle : Ring.Idle ring)
    (bus : Nat → UInt8) :
    ∃ res, fgdsWrite (fgdsRegmem os mb d a l).buffer.head k ring ⟨fd, a, b, n, f, owner⟩ =
        some res ∧
      res.ret = n ∧
      let file := ((World.mk (hostView mm bus) files).applyAll res.log).files fd
      file.size = max (files fd).size (f + n) ∧
      (∀ j < n, file.byte (f + j) = bus (gpuBus phys (a + b + j))) ∧
      ∀ y, y < f ∨ f + n ≤ y → file.byte y = (files fd).byte y := by
  obtain ⟨nd, hreg, hlen, hsel, hplaced⟩ := h.node
  obtain ⟨res, cs, hres, _, hret, hperm, ht⟩ :=
    fgdsWrite_window (window fd owner f hreg hlen hsel hin) rfl hf hn hk hidle
  obtain ⟨_, _, hsize, hbyte, hkeep⟩ := writes_effect hn hperm ht ⟨hostView mm bus, files⟩
  refine ⟨res, hres, hret, hsize, fun j hj => ?_, fun y hy => hkeep y fun j hj => ?_⟩
  · have htr := hplaced.translate (b + j) (by omega)
    rw [hbyte j hj, Nat.add_assoc]
    simp [hostView, window, htr]
  · change j < n at hj
    omega

end Region

/-- **Round trip.** One process writes a window of GPU memory to a file; another process, with its
own address space, GPU pages and registration, reads it into a window of its GPU. Then the bytes
are those of the first GPU, and nothing else on the second bus changed. -/
theorem gpu_write_read_back {p p' : Platform} {phys phys' : Nat → Nat}
    {filp filp' : Int → Option FgdsDev} {os os' : Os} {mb mb' : MmapBuffer} {d d' : Int}
    {a a' l l' : Nat} {mm mm' : Mm} (h : OnGpu p phys filp os mb d a l mm)
    (h' : OnGpu p' phys' filp' os' mb' d' a' l' mm') (fd : Int) (owner owner' : Nat)
    {b b' n f : Nat} (hn : 1 ≤ n) (hin : b + n ≤ l) (hin' : b' + n ≤ l') (hf : f < 2 ^ 63)
    (files : Int → File) {k : Kernel} (hk : FullWrites k) {ring : Ring} (hidle : Ring.Idle ring)
    (bus : Nat → UInt8) :
    ∃ res, fgdsWrite (fgdsRegmem os mb d a l).buffer.head k ring ⟨fd, a, b, n, f, owner⟩ =
        some res ∧
      res.ret = n ∧
      let files' := ((World.mk (hostView mm bus) files).applyAll res.log).files
      ∀ k' ring' bus', FullReads k' (files' fd).size → Ring.Idle ring' →
        ∃ res', fgdsRead (fgdsRegmem os' mb' d' a' l').buffer.head k' ring'
            ⟨fd, a', b', n, f, owner'⟩ = some res' ∧
          res'.ret = n ∧
          (∀ j < n, busReads mm' files' bus' res'.log (gpuBus phys' (a' + b' + j)) =
            bus (gpuBus phys (a + b + j))) ∧
          ∀ y, (∀ j < n, y ≠ gpuBus phys' (a' + b' + j)) →
            busReads mm' files' bus' res'.log y = bus' y := by
  obtain ⟨res, hres, hret, hsize, hbyte, _⟩ := fgdsWrite_gpu fd owner h hn hin hf files hk hidle bus
  refine ⟨res, hres, hret, fun k' ring' bus' hk' hidle' => ?_⟩
  obtain ⟨res', hres', hret', hin', hout'⟩ :=
    fgdsRead_gpu fd owner' h' hn hin' hf _ hk' hidle' bus'
  have hall : min n ((((World.mk (hostView mm bus) files).applyAll res.log).files fd).size - f) =
      n := by omega
  rw [hall] at hret' hin' hout'
  exact ⟨res', hres', hret', fun j hj => (hin' j hj).trans (hbyte j hj), hout'⟩

/-- The registration of 128KB at 1MB of the moved BAR. -/
theorem movedDev_onGpu : ∃ mm, OnGpu shiftedPlatform bar64 (fun _ => some movedDev)
    (plainOs 1 4294967296) ⟨0, 3, true, []⟩ 0 1048576 131072 mm := by
  obtain ⟨mm, hserved⟩ := movedDev_served
  have hremap : fgdsDevmMemremap shiftedPlatform ⟨274877906944, 16777216, none, false⟩ =
      (0, movedDev) := by decide +kernel
  refine ⟨mm, shiftedPlatform_linear, ⟨_, movedDev, by decide, by decide, hremap, by decide, rfl⟩,
    fun i => ?_, fun g g' hg hgl hg' hgl' hne => ?_, by decide, by decide, by decide,
    fgdsRegmem_granted (plainOs_grants 1 4294967296) rfl (by decide), _, hserved⟩
  · simp only [bar64, pageSize]
    constructor <;> omega
  · simp only [bar64, fgdsGpuPageSize] at *
    omega

/-- 100 bytes across the two GPU pages of that region, written and read back to its start. -/
theorem gpu_write_read_back_moved :
    ∃ (mm : Mm) (res res' : IoResult), OnGpu shiftedPlatform bar64 (fun _ => some movedDev)
        (plainOs 1 4294967296) ⟨0, 3, true, []⟩ 0 1048576 131072 mm ∧
      fgdsWrite (fgdsRegmem (plainOs 1 4294967296) ⟨0, 3, true, []⟩ 0 1048576 131072).buffer.head
        (plainKernel 0) ⟨false, [], []⟩ ⟨7, 1048576, 65500, 100, 0, 0⟩ = some res ∧
      res'.ret = 100 ∧
      busReads mm ((World.mk (hostView mm UInt8.ofNat) (plainWorld 0).files).applyAll res.log).files
        (fun _ => 0) res'.log (gpuBus bar64 1048579) = UInt8.ofNat (gpuBus bar64 1114079) := by
  obtain ⟨mm, hon⟩ := movedDev_onGpu
  obtain ⟨res, hres, _, hread⟩ := gpu_write_read_back hon hon 7 0 1 (b := 65500)
    (n := 100) (f := 0) (by decide) (by decide) (show 0 + 100 ≤ 131072 by decide) (by decide)
    (plainWorld 0).files
    (plainKernel_writes 0) (show Ring.Idle ⟨false, [], []⟩ from ⟨rfl, rfl⟩) UInt8.ofNat
  obtain ⟨res', _, hret', hbytes, _⟩ := hread _ ⟨false, [], []⟩ (fun _ => 0) (plainKernel_reads _)
    ⟨rfl, rfl⟩
  exact ⟨mm, res, res', hon, hres, hret', hbytes 3 (by decide)⟩

end Fgds.GpuTransfer
