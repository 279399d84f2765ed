import Fgds.KernelMap
import Fgds.Regmem
import Fgds.Xfer

/-!
# A registered byte is the GPU byte

`fgds_regmem` makes the system calls, the kernel module serves them, and
`fgds_do_xfer_addr` turns a window of the region into host ranges. The offsets pass
through 1GB segments, 64KB GPU pages, 4KB pages and a BAR whose start may have been
moved. Together they are the identity.

* `Serves`: what the kernel does for one call of `fgds_regmem`;
* `served_shows`: after all calls of a registration every segment is shown, and the
  segments do not overlap;
* `window_shows_gpu`: byte `k` of the segment list of a window shows the GPU byte
  `gpu_addr + buf_offset + k`.
-/

namespace Fgds.GpuMap

open Fgds.Lib.CInt Fgds.Lib.Tiling Fgds.Device Fgds.Remap Fgds.KernelMap Fgds.Regmem Fgds.Xfer

/-! ## The kernel's part in `fgds_regmem` -/

/-- `FGDS_IOCTL_MAP`. -/
def fgdsIoctlMap (p : Platform) (env : MapEnv) (mm : Mm) (para : MapParam) : Option (Int × Mm) :=
  if ¬ env.copyFromUser then some (-eFault, mm)
  else
    fgdsMapDevAddr p env mm para.gpuAddr para.gpuAddrSize para.hostVaddr para.hostVaddrSize

section Serve

variable (p : Platform) (phys : Nat → Nat) (filp : Int → Option FgdsDev)

/-- The kernel answers a call of `fgds_regmem`. `filp` is the device behind a descriptor.
A new mapping is page aligned and lies apart from all others; the lengths asked for are
whole pages. -/
inductive Serves : Mm → OsCall → Mm → Prop
  | mmap {mm : Mm} {fd : Int} {len v : Nat} {kzalloc : Bool} {mbuffer : Mbuffer} : 0 < len →
      v ≠ 0 → v % pageSize = 0 → v + len < 2 ^ 64 →
      (∀ u ∈ mm.ranges, v + len ≤ u.1 ∨ u.2 ≤ v) →
      fgdsMmap (filp fd) kzalloc v (v + len) = (0, some mbuffer) →
      Serves mm (.mmap fd len (some v)) { mm with vmas := ⟨v, v + len, some mbuffer⟩ :: mm.vmas }
  | mmapFailed {mm : Mm} {fd : Int} {len : Nat} : Serves mm (.mmap fd len none) mm
  | ioctlMap {mm mm' : Mm} {fd : Int} {para : MapParam} {env : MapEnv} {ret : Int} :
      env.Honest phys → fgdsIoctlMap p env mm para = some (ret, mm') →
      Serves mm (.ioctlMap fd para ret) mm'
  | munmap {mm : Mm} {addr len : Nat} : Serves mm (.munmap addr len 0) (mm.unmap addr len)
  | munmapFailed {mm : Mm} {addr len : Nat} {ret : Int} : ret ≠ 0 →
      Serves mm (.munmap addr len ret) mm

/-- It answers a list of calls, one after the other. -/
def Served : Mm → List OsCall → Mm → Prop
  | mm, [], mm' => mm = mm'
  | mm, c :: cs, mm' => ∃ mid, Serves p phys filp mm c mid ∧ Served mid cs mm'

end Serve

variable {p : Platform} {phys : Nat → Nat} {filp : Int → Option FgdsDev}

theorem served_append {mm mm' : Mm} {cs ds : List OsCall} :
    Served p phys filp mm (cs ++ ds) mm' ↔
      ∃ mid, Served p phys filp mm cs mid ∧ Served p phys filp mid ds mm' := by
  induction cs generalizing mm with
  | nil =>
    constructor
    · exact fun h => ⟨mm, rfl, h⟩
    · rintro ⟨mid, rfl, h⟩
      exact h
  | cons c cs ih =>
    simp only [List.cons_append, Served, ih]
    constructor
    · rintro ⟨m, hc, mid, hcs, hds⟩
      exact ⟨mid, ⟨m, hc, hcs⟩, hds⟩
    · rintro ⟨mid, ⟨m, hc, hcs⟩, hds⟩
      exact ⟨m, hc, mid, hcs, hds⟩

/-! ## One segment -/

/-- The host range of a mapping lies apart from a range of the address space. -/
def Apart (m : Mapping) (u : Nat × Nat) : Prop := m.host + m.len ≤ u.1 ∨ u.2 ≤ m.host

/-- What the calls for the segments `ms` made of the address space `mm`. -/
structure Shown (p : Platform) (dev : FgdsDev) (va : Nat) (phys : Nat → Nat) (mm mm' : Mm)
    (ms : List Mapping) : Prop where
  place : ∀ m ∈ ms, m.host % pageSize = 0 ∧ m.host + m.len < 2 ^ 64
  fresh : ∀ m ∈ ms, ∀ u ∈ mm.ranges, Apart m u
  apart : ms.Pairwise fun m m' => Apart m' (m.host, m.host + m.len)
  shows : ∀ m ∈ ms, ∀ o < m.len, ShowsGpu p dev va phys mm' (m.host + o) (m.gpu + o)
  kept : ∀ t, (∀ m ∈ ms, t < m.host / pageSize ∨ (m.host + m.len) / pageSize ≤ t) →
    mm'.pte t = mm.pte t

section Segments

variable {dev : FgdsDev} {va : Nat} (hm : Mapped p dev va) (hsize : fgdsGpuPageSize ≤ dev.size)
  (hphys : ∀ i, phys i < 2 ^ 64 ∧ phys i % pageSize = 0) {mb : MmapBuffer}
  (hfd : filp mb.devFd = some dev)
include hm hsize hphys hfd

theorem served_segment {m : Mapping} (hlen : m.len % fgdsGpuPageSize = 0) (hlt : m.len < 2 ^ 62)
    {mm mm' : Mm} (h : Served p phys filp mm (m.mapCalls mb) mm') :
    Shown p dev va phys mm mm' [m] ∧ mm'.ranges = (m.host, m.host + m.len) :: mm.ranges := by
  obtain ⟨mid, hmmap, last, hmap, rfl⟩ := h
  cases hmmap with
  | mmap hpos hnz hal hend hfresh hsetup =>
    rename_i kzalloc mbuffer
    cases hmap with
    | ioctlMap henv hioctl =>
      rename_i env
      -- `mmap` attached a buffer with the range of the VMA
      have hbuf : mbuffer.dev = some dev ∧ mbuffer.cVaddr = m.host ∧ mbuffer.mapLen = m.len := by
        simp only [fgdsMmap, hfd] at hsetup
        split at hsetup
        · simp [eNoMem] at hsetup
        · simp only [Prod.mk.injEq, true_and, Option.some.injEq] at hsetup
          subst hsetup
          exact ⟨rfl, rfl, Nat.add_sub_cancel_left _ _⟩
      have hlook : fgdsLookupMmapBuffer
          { mm with vmas := ⟨m.host, m.host + m.len, some mbuffer⟩ :: mm.vmas } m.host m.len =
          some (⟨m.host, m.host + m.len, some mbuffer⟩, mbuffer) := by
        have hfind : vmaLookup
            { mm with vmas := ⟨m.host, m.host + m.len, some mbuffer⟩ :: mm.vmas } m.host =
            some ⟨m.host, m.host + m.len, some mbuffer⟩ :=
          List.find?_cons_of_pos (by simp; omega)
        simp [fgdsLookupMmapBuffer, hnz, hal, hfind, hbuf.2.1, hbuf.2.2]
      -- so MAP found it
      have hmapped : fgdsMapDevAddr p env
          { mm with vmas := ⟨m.host, m.host + m.len, some mbuffer⟩ :: mm.vmas } m.gpu m.len
          m.host m.len = some (0, last) := by
        simp only [fgdsIoctlMap, Mapping.para] at hioctl
        split at hioctl
        · simp [eFault] at hioctl
        · exact hioctl
      obtain ⟨hshows, hkept, hranges⟩ := fgdsMapDevAddr_shows hm hsize hphys henv hlook hbuf.1
        hbuf.2.1 hal hlen hpos hlt hmapped
      refine ⟨⟨?_, ?_, List.pairwise_singleton _ _, ?_, ?_⟩, hranges⟩
      · simpa using ⟨hal, hend⟩
      · simpa [Apart] using hfresh
      · simpa using hshows
      · intro t ht
        exact hkept t (ht m List.mem_cons_self)

/-- All segments of a registration, one after the other. A later segment lies apart from
the earlier ones, so it leaves their pages alone. -/
theorem served_shows {ms : List Mapping}
    (hms : ∀ m ∈ ms, m.len % fgdsGpuPageSize = 0 ∧ m.len < 2 ^ 62) {mm mm' : Mm}
    (h : Served p phys filp mm (ms.flatMap (Mapping.mapCalls mb)) mm') :
    Shown p dev va phys mm mm' ms := by
  induction ms generalizing mm with
  | nil =>
    obtain rfl : mm = mm' := h
    exact ⟨by simp, by simp, List.Pairwise.nil, by simp, fun _ _ => rfl⟩
  | cons m ms ih =>
    rw [List.flatMap_cons] at h
    obtain ⟨mid, hfirst, hrest⟩ := served_append.mp h
    obtain ⟨hlen, hlt⟩ := hms m List.mem_cons_self
    obtain ⟨hs, hranges⟩ := served_segment hm hsize hphys hfd hlen hlt hfirst
    have hr := ih (fun m' hm' => hms m' (List.mem_cons_of_mem m hm')) hrest
    have hapart : ∀ m' ∈ ms, Apart m' (m.host, m.host + m.len) := fun m' hm' =>
      hr.fresh m' hm' _ (by rw [hranges]; exact List.mem_cons_self)
    have hplace := hs.place m List.mem_cons_self
    refine ⟨?_, ?_, List.Pairwise.cons hapart hr.apart, ?_, fun t ht => ?_⟩
    · exact List.forall_mem_cons.mpr ⟨hplace, hr.place⟩
    · refine List.forall_mem_cons.mpr ⟨hs.fresh m List.mem_cons_self, fun m' hm' u hu => ?_⟩
      exact hr.fresh m' hm' u (by rw [hranges]; exact List.mem_cons_of_mem _ hu)
    · refine List.forall_mem_cons.mpr ⟨fun o ho => ?_, hr.shows⟩
      have hshow := hs.shows m List.mem_cons_self o ho
      refine ⟨hshow.inBar, ?_, hshow.byte⟩
      rw [hr.kept _ fun m' hm' => ?_, hshow.page]
      have hpl := hr.place m' hm'
      have hlen' := (hms m' (List.mem_cons_of_mem m hm')).1
      rcases hapart m' hm' with hle | hle <;>
        simp only [pageSize, fgdsGpuPageSize] at * <;> omega
    · rw [hr.kept t fun m' hm' => ht m' (List.mem_cons_of_mem m hm'),
        hs.kept t fun m' hm' => by rw [List.mem_singleton.mp hm']; exact ht m List.mem_cons_self]

end Segments

/-! ## The whole region -/

section Region

variable {os : Os} {mb : MmapBuffer} {d : Int} {a l : Nat} {nd : MmapNode}

theorem segLen_aligned (hal : nd.length % fgdsGpuPageSize = 0)
    (hleft : nd.lengthLeft = nd.length % fgdsMmapSegmentSize) (i : Nat) :
    nd.segLen i % fgdsGpuPageSize = 0 ∧ nd.segLen i < 2 ^ 62 := by
  unfold MmapNode.segLen
  split
  · simp only [fgdsGpuPageSize, fgdsMmapSegmentSize] at *
    constructor <;> omega
  · decide

/-- The segments were mapped apart from each other. -/
theorem mapsApart_of_shown {dev : FgdsDev} {va : Nat} {mm mm' : Mm} (h : Linked os mb d a l nd)
    (hc : nd.mmapCount < 2 ^ 31) (hs : Shown p dev va phys mm mm' (mappings nd)) :
    MapsApart os l := by
  have hlen : ∀ i, mapLen (mmapCountOf l) (l % fgdsMmapSegmentSize) i = nd.segLen i := by
    intro i
    rw [← h.count, ← h.left, mapLen_segLen hc]
  have hmem : ∀ i < nd.mmapCount, mapping nd i ∈ mappings nd := fun i hi =>
    List.mem_map_of_mem (List.mem_range.mpr hi)
  have hpair : ∀ i j, i < j → j < nd.mmapCount →
      Apart (mapping nd j) (nd.vaddr i, nd.vaddr i + nd.segLen i) := by
    intro i j hij hj
    have hp := hs.apart
    rw [mappings, List.pairwise_map] at hp
    have hget := List.pairwise_iff_getElem.mp hp i j (by simp; omega) (by simpa using hj) hij
    simp only [List.getElem_range] at hget
    exact hget
  intro i hi v hv
  rw [← h.count] at hi
  rw [hlen, h.mmaps hc i hi, Option.some.injEq] at hv
  subst hv
  rw [hlen]
  refine ⟨(hs.place _ (hmem i hi)).2, fun j hj hij w hw => ?_⟩
  rw [← h.count] at hj
  rw [hlen, h.mmaps hc j hj, Option.some.injEq] at hw
  subst hw
  rw [hlen]
  rcases Nat.lt_or_gt_of_ne hij with hlt | hlt
  · exact (hpair i j hlt hj).symm
  · exact hpair j i hlt hi

end Region

/-- **Identity.** The module remapped the BAR, `fgds_regmem` returned 0 and the kernel
served its calls. Then for every window of the region, and every list on which the lookup
still selects it (such as the one `fgds_regmem` left), byte `k` of the segment list shows
the GPU byte `a + b + k`, and that byte is inside the BAR. -/
theorem window_shows_gpu (hlin : p.Linear) {dev₀ dev : FgdsDev} (hpos : 0 < dev₀.size)
    (hbus : dev₀.paddr + dev₀.size ≤ 2 ^ 63) (hremap : fgdsDevmMemremap p dev₀ = (0, dev))
    (hsize : fgdsGpuPageSize ≤ dev.size)
    (hphys : ∀ i, phys i < 2 ^ 64 ∧ phys i % pageSize = 0) {mb : MmapBuffer}
    (hfd : filp mb.devFd = some dev) {os : Os} {d : Int} {a l : Nat} (hl : 0 < l)
    (hc : mmapCountOf l < 2 ^ 31) (hend : a + l < 2 ^ 64)
    (hret : (fgdsRegmem os mb d a l).ret = 0) {mm mm' : Mm}
    (hserved : Served p phys filp mm (fgdsRegmem os mb d a l).calls mm') {b n : Nat} (hn : 1 ≤ n)
    (hin : b + n ≤ l) :
    ∃ va nd, dev.pciMemVa = some va ∧
      findFgdsMmapNode (fgdsRegmem os mb d a l).buffer.head a n = some nd ∧
      ∀ head, findFgdsMmapNode head a n = some nd →
        ∃ es, fgdsDoXferAddr head a b n = some es ∧
          ∀ k < n, ∃ x, byteAt es k = some x ∧ ShowsGpu p dev va phys mm' x (a + b + k) := by
  obtain ⟨va, hm, _⟩ := fgdsDevmMemremap_mapped hlin hpos hbus hremap
  obtain ⟨nd, hlink⟩ := fgdsRegmem_linked hret
  have hcount : nd.mmapCount < 2 ^ 31 := by
    rw [hlink.count]
    exact hc
  rw [hlink.calls hcount] at hserved
  have hms : ∀ m ∈ mappings nd, m.len % fgdsGpuPageSize = 0 ∧ m.len < 2 ^ 62 := by
    intro m hmem
    obtain ⟨i, _, rfl⟩ := List.mem_map.mp hmem
    exact segLen_aligned (by rw [hlink.length]; exact hlink.aligned)
      (by rw [hlink.length]; exact hlink.left) i
  have hfile : filp { mb with deviceId := d }.devFd = some dev := hfd
  have hs : Shown p dev va phys mm mm' (mappings nd) :=
    served_shows hm hsize hphys hfile hms hserved
  have hreg : nd.Registered := hlink.registered hl hcount (mapsApart_of_shown hlink hcount hs)
  have hgpu := hlink.gpuAddr
  have hlength := hlink.length
  refine ⟨va, nd, hm.mem, ?_, fun head hf => ?_⟩
  · rw [hlink.buffer]
    exact selects_newest (by omega) (by omega) (by omega) mb.head n hn (Nat.le_refl n)
  · obtain ⟨es, hes, ht, _⟩ := xferWindow_inside hreg hn (by omega : b + n ≤ nd.length)
    refine ⟨es, (fgdsDoXferAddr_some hf b).trans hes, fun k hk => ?_⟩
    refine ⟨_, byteAt_tiles ht (by omega), ?_⟩
    -- segment and offset of the byte
    have hi := hreg.segIndex (show b + k < nd.length by omega)
    have ho := hreg.segOffset (show b + k < nd.length by omega)
    have hshow := hs.shows (mapping nd ((b + k) / fgdsMmapSegmentSize))
      (List.mem_map_of_mem (List.mem_range.mpr hi)) _ ho
    have hbase : (mapping nd ((b + k) / fgdsMmapSegmentSize)).gpu =
        a + (b + k) / fgdsMmapSegmentSize * fgdsMmapSegmentSize := by
      rw [mapping, hgpu]
      simp only [fgdsMmapSegmentSize]
      exact u64_eq (by push_cast; rfl) (by omega)
    have hg : a + b + k = (mapping nd ((b + k) / fgdsMmapSegmentSize)).gpu +
        (b + k) % fgdsMmapSegmentSize := by
      rw [hbase]
      simp only [fgdsMmapSegmentSize]
      omega
    rw [hg]
    exact hshow

/-! ## A platform -/

/-- The kernel maps bus addresses at a fixed distance; the first attempt to remap fails. -/
def shiftedPlatform : Platform where
  x86 := true
  kzalloc := true
  memremapPages i start stop :=
    if i ≠ 0 ∧ start ≤ stop ∧ stop < 2 ^ 48 then some (start + 2 ^ 47) else none
  ioremap _ _ := true
  virtToPage x := (x - 2 ^ 47) / pageSize

theorem shiftedPlatform_linear : shiftedPlatform.Linear := by
  constructor
  · intro i start stop va h
    simp only [shiftedPlatform, Option.ite_none_right_eq_some, Option.some.injEq] at h
    omega
  · intro i start stop va h x _
    simp only [shiftedPlatform, Option.ite_none_right_eq_some, Option.some.injEq] at h
    simp only [shiftedPlatform, ← h.2]
    rw [show start + 2 ^ 47 + x - 2 ^ 47 = start + x by omega]

/-- 64 GPU pages, 6MB into a BAR at 256GB. -/
def bar64 (i : Nat) : Nat := 274877906944 + 6291456 + i % 64 * 65536

def grantingEnv : MapEnv where
  copyFromUser := true
  kzallocAddrs := true
  kmallocPages := true
  kmallocMap := true
  kmallocRegion := true
  getPages va n :=
    if va % fgdsGpuPageSize = 0 then
      (0, some ((List.range (n / fgdsGpuPageSize)).map fun i =>
        some (bar64 (va / fgdsGpuPageSize + i))))
    else (-eInval, none)
  insertPages _ pages := (0, pages.length)

theorem grantingEnv_honest : grantingEnv.Honest bar64 := by
  refine ⟨fun va n es h => ?_, fun _ _ _ => rfl⟩
  simp only [grantingEnv] at h
  split at h
  · exact ⟨‹_›, (Option.some.inj h).symm⟩
  · cases h

/-- A 16MB BAR at 256GB, remapped without its first 2MB. -/
def movedDev : FgdsDev := ⟨274880004096, 14680064, some (274880004096 + 2 ^ 47), true⟩

/-- The kernel serves the registration of 128KB at 1MB. -/
theorem movedDev_served : ∃ mm', Served shiftedPlatform bar64 (fun _ => some movedDev)
    ⟨[], fun _ => none⟩
    (fgdsRegmem (plainOs 1 4294967296) ⟨0, 3, true, []⟩ 0 1048576 131072).calls mm' := by
  have hcalls : (fgdsRegmem (plainOs 1 4294967296) ⟨0, 3, true, []⟩ 0 1048576 131072).calls =
      [.mmap 3 131072 (some 4294967296),
        .ioctlMap 3 ⟨0, 4294967296, 131072, 1048576, 131072⟩ 0] := by decide +kernel
  obtain ⟨mbuffer, hmb⟩ : ∃ mbuffer,
      fgdsMmap (some movedDev) true 4294967296 (4294967296 + 131072) = (0, some mbuffer) :=
    ⟨_, rfl⟩
  have hret : ((fgdsIoctlMap shiftedPlatform grantingEnv
      ⟨[⟨4294967296, 4294967296 + 131072, some mbuffer⟩], fun _ => none⟩
      ⟨0, 4294967296, 131072, 1048576, 131072⟩).map Prod.fst) = some 0 := by
    cases hmb
    decide +kernel
  obtain ⟨⟨ret, mm'⟩, hioctl, rfl⟩ := Option.map_eq_some_iff.mp hret
  rw [hcalls]
  exact ⟨mm', _, .mmap (by decide) (by decide) (by decide) (by decide) (by simp [Mm.ranges]) hmb,
    mm', .ioctlMap grantingEnv_honest hioctl, rfl⟩

/-- The first of 100 bytes at offset 70000 of that region. -/
theorem window_shows_gpu_moved :
    ∃ mm' va nd es x,
      Served shiftedPlatform bar64 (fun _ => some movedDev) ⟨[], fun _ => none⟩
        (fgdsRegmem (plainOs 1 4294967296) ⟨0, 3, true, []⟩ 0 1048576 131072).calls mm' ∧
      fgdsDoXferAddr
        (fgdsRegmem (plainOs 1 4294967296) ⟨0, 3, true, []⟩ 0 1048576 131072).buffer.head
        1048576 70000 100 = some es ∧
      findFgdsMmapNode
        (fgdsRegmem (plainOs 1 4294967296) ⟨0, 3, true, []⟩ 0 1048576 131072).buffer.head
        1048576 100 = some nd ∧
      byteAt es 0 = some x ∧ ShowsGpu shiftedPlatform movedDev va bar64 mm' x 1118576 := by
  obtain ⟨mm', hserved⟩ := movedDev_served
  have hremap : fgdsDevmMemremap shiftedPlatform ⟨274877906944, 16777216, none, false⟩ =
      (0, movedDev) := by decide +kernel
  have hphys : ∀ i, bar64 i < 2 ^ 64 ∧ bar64 i % pageSize = 0 := by
    intro i
    simp only [bar64, pageSize]
    constructor <;> omega
  obtain ⟨va, nd, _, hf, hall⟩ := window_shows_gpu shiftedPlatform_linear (by decide) (by decide)
    hremap (by decide) hphys rfl (by decide) (by decide) (by decide)
    (fgdsRegmem_granted (plainOs_grants 1 4294967296) rfl (by decide)) hserved (b := 70000)
    (n := 100) (by decide) (by decide)
  obtain ⟨es, hes, hshow⟩ := hall _ hf
  obtain ⟨x, hx, hgpu⟩ := hshow 0 (by decide)
  exact ⟨mm', va, nd, es, x, hserved, hes, hf, hx, hgpu⟩

end Fgds.GpuMap
