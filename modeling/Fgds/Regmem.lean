import Fgds.Device
import Fgds.Lib.Ledger
import Fgds.Lib.Tiling
import Mathlib.Data.List.GetD

/-!
# Registering and releasing GPU memory

`fgds_regmem` maps a region segment by segment (one `mmap`, one `FGDS_IOCTL_MAP`
each) and links a node; `fgds_deregmem` looks the node up, unlinks it and unmaps
its segments. The operating system is a parameter `Os`: it answers the n-th call of
each kind. Every system call made is recorded.

* `fgdsRegmem_linked`: what a call that returned 0 did, and the node it linked
  (`Linked`); `Linked.registered`: that node is a complete registration;
* `fgdsDeregmem_found`, `unmapLoop_calls`: what a release does;
* `Held`, `callEvents`: what the system calls acquire and give back;
* `fgdsRegmem_fd`, `fgdsDeregmem_fd`: the descriptor they are made with;
* `fgdsRegmem_acts`: a request that passes the checks maps something or returns 0.
-/

namespace Fgds.Regmem

open Fgds.Lib.CInt Fgds.Lib.Ledger Fgds.Lib.Tiling Fgds.Device

/-- The `map_param` fields of `fgds_ioctl_para_t` that libfgds fills in. -/
structure MapParam where
  devId : Int
  hostVaddr : Nat
  hostVaddrSize : Nat
  gpuAddr : Nat
  gpuAddrSize : Nat
  deriving DecidableEq, Repr

/-- A system call with its arguments and its result; `none` is `MAP_FAILED`. -/
inductive OsCall where
  | mmap (fd : Int) (len : Nat) (ret : Option Nat)
  | munmap (addr len : Nat) (ret : Int)
  | ioctlMap (fd : Int) (para : MapParam) (ret : Int)
  | ioctlUnmap (fd : Int) (para : MapParam) (ret : Int)
  deriving DecidableEq, Repr

/-- The answers of the allocator and of the operating system to one call of
`fgds_regmem` or `fgds_deregmem`, by the index of the segment they are about. -/
structure Os where
  mallocNode : Option Nat
  mallocVaddrs : Bool
  mmap : Nat → Nat → Option Nat
  munmap : Nat → Nat → Nat → Int
  ioctlMap : Nat → MapParam → Int
  ioctlUnmap : Nat → MapParam → Int

/-- `fgds_mmap_buffer_t` without its ring and its locks. -/
structure MmapBuffer where
  deviceId : Int
  devFd : Int
  initialized : Bool
  head : List MmapNode
  deriving DecidableEq, Repr

/-! ## `fgds_regmem` -/

def eFault : Int := 14

/-- `__fgds_regmem`. -/
def fgdsRegmemInner (os : Os) (mb : MmapBuffer) (i gpuAddr hostVaddr len : Nat) :
    Int × List OsCall :=
  if ¬ mb.initialized then (-1, [])
  else
    let para : MapParam :=
      { devId := mb.deviceId, hostVaddr, hostVaddrSize := len, gpuAddr, gpuAddrSize := len }
    (os.ioctlMap i para, [.ioctlMap mb.devFd para (os.ioctlMap i para)])

section MapLoop

variable (os : Os) (mb : MmapBuffer) (gpuAddr count left : Nat)

/-- `mmap_len` and `cleanup_len` of `fgds_regmem`, which compare `int` values. -/
def mapLen (i : Nat) : Nat :=
  if (i : Int) = s32 count - 1 ∧ left ≠ 0 then left else fgdsMmapSegmentSize

/-- The cleanup loops: unmap what this call mapped so far. -/
def mapCleanup (vaddrs : List Nat) : List OsCall :=
  vaddrs.zipIdx.map fun (v, j) =>
    .munmap v (mapLen count left j) (os.munmap j v (mapLen count left j))

/-- The map loop from segment `i` on, for the given number of rounds: whether it ran
to its end, all segments mapped, and the system calls made. -/
def mapLoop : Nat → Nat → Nat → List Nat → Bool × List Nat × List OsCall
  | 0, _, _, vaddrs => (true, vaddrs, [])
  | rounds + 1, i, mmapedLen, vaddrs =>
    let len := mapLen count left i
    match os.mmap i len with
    | none => (false, vaddrs, .mmap mb.devFd len none :: mapCleanup os count left vaddrs)
    | some v =>
      let (ret, calls) := fgdsRegmemInner os mb i (u64 (gpuAddr + mmapedLen)) v len
      if ret ≠ 0 then
        (false, vaddrs ++ [v],
          .mmap mb.devFd len (some v) :: calls ++ mapCleanup os count left (vaddrs ++ [v]))
      else
        let (ok, vs, rest) := mapLoop rounds (i + 1) (u64 (mmapedLen + len)) (vaddrs ++ [v])
        (ok, vs, .mmap mb.devFd len (some v) :: calls ++ rest)

end MapLoop

/-- The loop of `fgds_regmem`; its counter is an `int`, compared with `(int)mmap_count`. -/
def mapSegments (os : Os) (mb : MmapBuffer) (gpuAddr len : Nat) : Bool × List Nat × List OsCall :=
  mapLoop os mb gpuAddr (mmapCountOf len) (len % fgdsMmapSegmentSize)
    (s32 (mmapCountOf len)).toNat 0 0 []

structure RegResult where
  ret : Int
  buffer : MmapBuffer
  calls : List OsCall
  targetAddr : Option Nat

/-- `fgds_regmem`. -/
def fgdsRegmem (os : Os) (mb : MmapBuffer) (deviceId : Int) (gpuAddr len : Nat) : RegResult :=
  match os.mallocNode with
  | none => ⟨-1, mb, [], none⟩
  | some self =>
    let mb := { mb with deviceId }
    if len % fgdsGpuPageSize ≠ 0 then ⟨-eFault, mb, [], none⟩
    else if ¬ os.mallocVaddrs then ⟨-1, mb, [], none⟩
    else
      let run := mapSegments os mb gpuAddr len
      if ¬ run.1 then ⟨-eFault, mb, run.2.2, none⟩
      else
        let node : MmapNode :=
          { self, vaddrs := run.2.1, mmapCount := mmapCountOf len, gpuAddr, length := len,
            lengthLeft := len % fgdsMmapSegmentSize, isMapped := true }
        ⟨0, { mb with head := insertFgdsMmapNode mb.head node }, run.2.2, run.2.1.head?⟩

/-! ## `fgds_deregmem` -/

/-- `__fgds_deregmem`. -/
def fgdsDeregmemInner (os : Os) (mb : MmapBuffer) (i gpuAddr hostVaddr len : Nat) :
    Int × List OsCall :=
  if ¬ mb.initialized then (-1, [])
  else
    let para : MapParam :=
      { devId := mb.deviceId, hostVaddr, hostVaddrSize := len, gpuAddr, gpuAddrSize := len }
    (os.ioctlUnmap i para, [.ioctlUnmap mb.devFd para (os.ioctlUnmap i para)])

/-- The unmap loop: it goes on after a failure and remembers it. -/
def unmapLoop (os : Os) (mb : MmapBuffer) (nd : MmapNode) : Nat → Nat → Nat → Int × List OsCall
  | 0, _, _ => (0, [])
  | rounds + 1, i, unmappedLen =>
    let len := nd.segLen i
    let (deregRet, calls) :=
      fgdsDeregmemInner os mb i (u64 (nd.gpuAddr + unmappedLen)) (nd.vaddr i) len
    let munmapRet := os.munmap i (nd.vaddr i) len
    let (ret, rest) := unmapLoop os mb nd rounds (i + 1) (u64 (unmappedLen + len))
    (if deregRet ≠ 0 ∨ munmapRet ≠ 0 then -1 else ret,
      calls ++ .munmap (nd.vaddr i) len munmapRet :: rest)

/-- `released` is the node passed to `free` at the end, if the call got there. -/
structure DeregResult where
  ret : Int
  buffer : MmapBuffer
  calls : List OsCall
  released : Option MmapNode

/-- `fgds_deregmem`. -/
def fgdsDeregmem (os : Os) (mb : MmapBuffer) (gpuAddr len : Nat) : DeregResult :=
  match findFgdsMmapNode mb.head gpuAddr len with
  | none => ⟨-1, mb, [], none⟩
  | some nd =>
    if nd.length ≠ len ∨ ¬ nd.isMapped then ⟨-1, mb, [], none⟩
    else
      match deleteFgdsMmapNode mb.head nd with
      | none => ⟨-1, mb, [], none⟩
      | some head =>
        let (ret, calls) := unmapLoop os mb nd nd.mmapCount 0 0
        ⟨ret, { mb with head }, calls, some nd⟩

/-! ## The mappings of a node -/

/-- One mapped segment: a GPU range and the host range that shows it. -/
structure Mapping where
  gpu : Nat
  host : Nat
  len : Nat
  deriving DecidableEq, Repr

def Mapping.para (mb : MmapBuffer) (m : Mapping) : MapParam :=
  { devId := mb.deviceId, hostVaddr := m.host, hostVaddrSize := m.len, gpuAddr := m.gpu,
    gpuAddrSize := m.len }

/-- What a successful `fgds_regmem` does for one segment. -/
def Mapping.mapCalls (mb : MmapBuffer) (m : Mapping) : List OsCall :=
  [.mmap mb.devFd m.len (some m.host), .ioctlMap mb.devFd (m.para mb) 0]

/-- What a successful `fgds_deregmem` does for one segment. -/
def Mapping.unmapCalls (mb : MmapBuffer) (m : Mapping) : List OsCall :=
  [.ioctlUnmap mb.devFd (m.para mb) 0, .munmap m.host m.len 0]

def mapping (nd : MmapNode) (i : Nat) : Mapping :=
  { gpu := u64 (nd.gpuAddr + i * fgdsMmapSegmentSize), host := nd.vaddr i, len := nd.segLen i }

def mappings (nd : MmapNode) : List Mapping := (List.range nd.mmapCount).map (mapping nd)

/-! ## A map loop that ran to its end -/

section MapLoopSpec

variable {os : Os} {mb : MmapBuffer} {gpuAddr count left : Nat}

theorem mapLen_eq (hc : count < 2 ^ 31) (i : Nat) :
    mapLen count left i = if i + 1 = count ∧ left ≠ 0 then left else fgdsMmapSegmentSize := by
  unfold mapLen
  rw [s32_eq (by omega) (by omega)]
  congr 1
  apply propext
  constructor <;> rintro ⟨h, hl⟩ <;> exact ⟨by omega, hl⟩

/-- Every segment was mapped by its own `mmap`, and the calls are one `mmap` and one
MAP for each, in order. By induction on the rounds left; `i` segments are done. -/
theorem mapLoop_true (hc : count < 2 ^ 31) {rounds i mmapedLen : Nat} {vaddrs vs : List Nat}
    {calls : List OsCall} (hi : i + rounds = count) (hv : vaddrs.length = i)
    (hm : rounds ≠ 0 → mmapedLen = i * fgdsMmapSegmentSize)
    (h : mapLoop os mb gpuAddr count left rounds i mmapedLen vaddrs = (true, vs, calls)) :
    vs.length = count ∧ (∀ j < i, vs.getD j 0 = vaddrs.getD j 0) ∧
      (∀ j, i ≤ j → j < count → os.mmap j (mapLen count left j) = some (vs.getD j 0)) ∧
      calls = (List.range' i rounds).flatMap fun (j : Nat) =>
        Mapping.mapCalls mb ⟨u64 (gpuAddr + j * fgdsMmapSegmentSize), vs.getD j 0,
          mapLen count left j⟩ := by
  induction rounds generalizing i mmapedLen vaddrs calls with
  | zero =>
    simp only [mapLoop, Prod.mk.injEq, true_and] at h
    obtain ⟨rfl, rfl⟩ := h
    exact ⟨by omega, fun _ _ => rfl, fun j hj hj' => by omega, rfl⟩
  | succ rounds ih =>
    simp only [mapLoop] at h
    cases hmm : os.mmap i (mapLen count left i) with
    | none => simp [hmm] at h
    | some v =>
      by_cases hini : mb.initialized = true
      swap
      · simp [hmm, fgdsRegmemInner, hini] at h
      simp only [hmm, fgdsRegmemInner, hini, not_true_eq_false, ↓reduceIte] at h
      split at h
      · simp at h
      · rename_i hret
        generalize htail : mapLoop os mb gpuAddr count left rounds (i + 1)
          (u64 (mmapedLen + (mapLen count left i : Nat))) (vaddrs ++ [v]) = tail at h
        simp only [Prod.mk.injEq] at h
        obtain ⟨hok, rfl, rfl⟩ := h
        have hrun : tail = (true, tail.2.1, tail.2.2) := Prod.ext hok rfl
        have hnext : rounds ≠ 0 → u64 (mmapedLen + (mapLen count left i : Nat)) =
            (i + 1) * fgdsMmapSegmentSize := by
          intro hr
          rw [mapLen_eq hc, if_neg (by omega), hm (by omega)]
          apply u64_eq
          · push_cast; ring
          · simp only [fgdsMmapSegmentSize]; omega
        obtain ⟨hl, hold, hnew, hcalls⟩ := ih (by omega) (by simp [hv]) hnext (htail.trans hrun)
        have hvi : tail.2.1.getD i 0 = v := by
          rw [hold i (by omega)]
          simp [← hv]
        refine ⟨hl, fun j hj => ?_, fun j hj hj' => ?_, ?_⟩
        · rw [hold j (by omega), List.getD_append _ _ _ _ (by omega)]
        · rcases Nat.eq_or_lt_of_le hj with rfl | hlt
          · rw [hvi, hmm]
          · exact hnew j (by omega) hj'
        · rw [not_not] at hret
          rw [List.range'_succ, List.flatMap_cons, ← hcalls, hvi, hret, hm (by omega)]
          simp only [Mapping.mapCalls, Mapping.para, Nat.cast_mul, List.cons_append,
            List.nil_append]

/-- With an operating system that grants everything the loop runs to its end. -/
theorem mapLoop_granted (hini : mb.initialized = true) (hmmap : ∀ i n, (os.mmap i n).isSome)
    (hmap : ∀ i p, os.ioctlMap i p = 0) (rounds i mmapedLen : Nat) (vaddrs : List Nat) :
    (mapLoop os mb gpuAddr count left rounds i mmapedLen vaddrs).1 = true := by
  induction rounds generalizing i mmapedLen vaddrs with
  | zero => rfl
  | succ rounds ih =>
    obtain ⟨v, hv⟩ := Option.isSome_iff_exists.mp (hmmap i (mapLen count left i))
    simp only [mapLoop, hv, fgdsRegmemInner, hini, not_true_eq_false, ↓reduceIte, hmap, ne_eq]
    exact ih _ _ _

end MapLoopSpec

/-! ## What a call does -/

/-- The allocator and the operating system grant everything they are asked for. -/
structure Os.Grants (os : Os) : Prop where
  node : os.mallocNode.isSome
  vaddrs : os.mallocVaddrs = true
  mmap : ∀ i n, (os.mmap i n).isSome
  munmap : ∀ i v n, os.munmap i v n = 0
  ioctlMap : ∀ i p, os.ioctlMap i p = 0
  ioctlUnmap : ∀ i p, os.ioctlUnmap i p = 0

/-- An operating system that grants everything and maps segment `i` of a call `i`
gigabytes above `base`. -/
def plainOs (self base : Nat) : Os where
  mallocNode := some self
  mallocVaddrs := true
  mmap i _ := some (base + i * fgdsMmapSegmentSize)
  munmap _ _ _ := 0
  ioctlMap _ _ := 0
  ioctlUnmap _ _ := 0

theorem plainOs_grants (self base : Nat) : (plainOs self base).Grants :=
  ⟨rfl, rfl, fun _ _ => rfl, fun _ _ _ => rfl, fun _ _ => rfl, fun _ _ => rfl⟩

/-- 1GB and 128KB at 1MB, and then 128KB at 8GB, on a fresh device. -/
def twoLive : MmapBuffer :=
  (fgdsRegmem (plainOs 2 17179869184) (fgdsRegmem (plainOs 1 4294967296) ⟨0, 3, true, []⟩ 0 1048576
    1073872896).buffer 0 8589934592 131072).buffer

/-- The ranges that `mmap` returns for the segments of one region end inside the
address space and do not overlap. -/
def MapsApart (os : Os) (l : Nat) : Prop :=
  ∀ i < mmapCountOf l, ∀ v,
    os.mmap i (mapLen (mmapCountOf l) (l % fgdsMmapSegmentSize) i) = some v →
    v + mapLen (mmapCountOf l) (l % fgdsMmapSegmentSize) i < 2 ^ 64 ∧
    ∀ j < mmapCountOf l, i ≠ j → ∀ w,
      os.mmap j (mapLen (mmapCountOf l) (l % fgdsMmapSegmentSize) j) = some w →
      v + mapLen (mmapCountOf l) (l % fgdsMmapSegmentSize) i ≤ w ∨
        w + mapLen (mmapCountOf l) (l % fgdsMmapSegmentSize) j ≤ v

theorem plainOs_mapsApart (self base l : Nat)
    (hend : base + mmapCountOf l * fgdsMmapSegmentSize < 2 ^ 64) :
    MapsApart (plainOs self base) l := by
  have hle : ∀ i, mapLen (mmapCountOf l) (l % fgdsMmapSegmentSize) i ≤ fgdsMmapSegmentSize := by
    intro i
    unfold mapLen
    split
    · exact Nat.le_of_lt (Nat.mod_lt _ (by decide))
    · exact Nat.le_refl _
  rintro i hi v ⟨⟩
  have hi' := hle i
  refine ⟨?_, ?_⟩
  · simp only [fgdsMmapSegmentSize] at *
    omega
  · rintro j hj hij w ⟨⟩
    have hj' := hle j
    simp only [fgdsMmapSegmentSize] at *
    omega

/-- `fgds_regmem` returned 0 and linked `nd` for the request `(a, l)`. The segments
are all mapped when their number is an `int`. -/
structure Linked (os : Os) (mb : MmapBuffer) (d : Int) (a l : Nat) (nd : MmapNode) : Prop where
  buffer : (fgdsRegmem os mb d a l).buffer = { mb with deviceId := d, head := nd :: mb.head }
  self : os.mallocNode = some nd.self
  gpuAddr : nd.gpuAddr = a
  length : nd.length = l
  aligned : l % fgdsGpuPageSize = 0
  count : nd.mmapCount = mmapCountOf l
  left : nd.lengthLeft = l % fgdsMmapSegmentSize
  mapped : nd.isMapped = true
  vaddrs : nd.mmapCount < 2 ^ 31 → nd.vaddrs.length = nd.mmapCount
  mmaps : nd.mmapCount < 2 ^ 31 →
    ∀ i < nd.mmapCount, os.mmap i (nd.segLen i) = some (nd.vaddr i)
  calls : nd.mmapCount < 2 ^ 31 →
    (fgdsRegmem os mb d a l).calls =
      (mappings nd).flatMap (Mapping.mapCalls { mb with deviceId := d })

section Regmem

variable {os : Os} {mb : MmapBuffer} {d : Int} {a l : Nat}

theorem mapLen_segLen {nd : MmapNode} (hc : nd.mmapCount < 2 ^ 31) (i : Nat) :
    mapLen nd.mmapCount nd.lengthLeft i = nd.segLen i := mapLen_eq hc i

theorem mapSegments_true (hc : mmapCountOf l < 2 ^ 31) {vs : List Nat} {calls : List OsCall}
    (h : mapSegments os mb a l = (true, vs, calls)) :
    vs.length = mmapCountOf l ∧
      (∀ j < mmapCountOf l, os.mmap j (mapLen (mmapCountOf l) (l % fgdsMmapSegmentSize) j) =
        some (vs.getD j 0)) ∧
      calls = (List.range (mmapCountOf l)).flatMap fun (j : Nat) =>
        Mapping.mapCalls mb ⟨u64 (a + j * fgdsMmapSegmentSize), vs.getD j 0,
          mapLen (mmapCountOf l) (l % fgdsMmapSegmentSize) j⟩ := by
  rw [mapSegments, s32_eq (by omega) (by omega), Int.toNat_natCast] at h
  obtain ⟨hl, _, hmmap, hcalls⟩ := mapLoop_true hc (Nat.zero_add _) rfl (by simp) h
  rw [List.range_eq_range']
  exact ⟨hl, fun j hj => hmmap j (Nat.zero_le j) hj, hcalls⟩

/-- A return value of 0 means that a node was linked in front. -/
theorem fgdsRegmem_linked (h : (fgdsRegmem os mb d a l).ret = 0) :
    ∃ nd, Linked os mb d a l nd := by
  cases hself : os.mallocNode with
  | none => simp [fgdsRegmem, hself] at h
  | some self =>
    by_cases hal : l % fgdsGpuPageSize ≠ 0
    · simp [fgdsRegmem, hself, hal, eFault] at h
    by_cases hva : ¬ os.mallocVaddrs
    · simp [fgdsRegmem, hself, hal, hva] at h
    cases hrun : mapSegments os { mb with deviceId := d } a l with
    | mk ok rest =>
      obtain ⟨vaddrs, calls⟩ := rest
      cases ok with
      | false => simp [fgdsRegmem, hself, hal, hva, hrun, eFault] at h
      | true =>
        let nd : MmapNode :=
          { self, vaddrs, mmapCount := mmapCountOf l, gpuAddr := a, length := l,
            lengthLeft := l % fgdsMmapSegmentSize, isMapped := true }
        have hres : fgdsRegmem os mb d a l =
            ⟨0, { mb with deviceId := d, head := nd :: mb.head }, calls, vaddrs.head?⟩ := by
          simp only [fgdsRegmem, hself, if_neg hal, if_neg hva, hrun, not_true_eq_false, ↓reduceIte,
            insertFgdsMmapNode, nd]
        refine ⟨nd, by rw [hres], hself, rfl, rfl, not_not.mp hal, rfl, rfl, rfl, fun hc => ?_,
          fun hc i hi => ?_, fun hc => ?_⟩
        · exact (mapSegments_true hc hrun).1
        · rw [← mapLen_segLen hc]
          exact (mapSegments_true hc hrun).2.1 i hi
        · rw [hres, (mapSegments_true hc hrun).2.2, mappings, List.flatMap_map]
          apply List.flatMap_congr
          intro j _
          rw [mapping, ← mapLen_segLen hc]
          simp only [MmapNode.vaddr, nd]

/-- Any other return value means that the list is as before. -/
theorem fgdsRegmem_refused (h : (fgdsRegmem os mb d a l).ret ≠ 0) :
    (fgdsRegmem os mb d a l).buffer.head = mb.head ∧
      (fgdsRegmem os mb d a l).buffer.initialized = mb.initialized := by
  cases hself : os.mallocNode with
  | none => simp [fgdsRegmem, hself]
  | some self =>
    simp only [fgdsRegmem, hself] at h ⊢
    split
    · exact ⟨rfl, rfl⟩
    · split
      · exact ⟨rfl, rfl⟩
      · split
        · exact ⟨rfl, rfl⟩
        · rename_i hal hva hok
          simp [hal, hva, hok] at h

theorem fgdsRegmem_granted (hos : os.Grants) (hini : mb.initialized = true)
    (hal : l % fgdsGpuPageSize = 0) : (fgdsRegmem os mb d a l).ret = 0 := by
  obtain ⟨self, hself⟩ := Option.isSome_iff_exists.mp hos.node
  have hrun : (mapSegments os { mb with deviceId := d } a l).1 = true := by
    rw [mapSegments]
    apply mapLoop_granted _ hos.mmap hos.ioctlMap
    exact hini
  simp [fgdsRegmem, hself, hal, hos.vaddrs, hrun]

/-- The node linked for a positive length is a complete registration. -/
theorem Linked.registered {nd : MmapNode} (h : Linked os mb d a l nd) (hl : 0 < l)
    (hc : nd.mmapCount < 2 ^ 31) (hap : MapsApart os l) : nd.Registered := by
  have hcount := h.count
  have hlen : ∀ i, mapLen nd.mmapCount (l % fgdsMmapSegmentSize) i = nd.segLen i := by
    intro i
    rw [← h.left, mapLen_segLen hc]
  simp only [MapsApart, ← hcount, hlen] at hap
  have hmmap := h.mmaps hc
  refine ⟨?_, ?_, ?_, ?_, h.mapped, h.vaddrs hc, hc, fun i hi => ?_, fun i hi j hj hij => ?_⟩
  · rw [h.length]; exact h.aligned
  · rw [h.length]; exact hl
  · rw [h.length]; exact hcount
  · rw [h.length]; exact h.left
  · exact (hap i hi _ (hmmap i hi)).1
  · exact (hap i hi _ (hmmap i hi)).2 j hj hij _ (hmmap j hj)

end Regmem

section Deregmem

variable {os : Os} {mb : MmapBuffer} {nd : MmapNode} {a l : Nat}

theorem unmapLoop_granted (hos : os.Grants) (hini : mb.initialized = true)
    (rounds i unmappedLen : Nat) : (unmapLoop os mb nd rounds i unmappedLen).1 = 0 := by
  induction rounds generalizing i unmappedLen with
  | zero => rfl
  | succ rounds ih =>
    simp [unmapLoop, fgdsDeregmemInner, hini, hos.ioctlUnmap, hos.munmap, ih]

/-- The unmap loop undoes every mapping of the node from segment `i` on. -/
theorem unmapLoop_calls (hos : os.Grants) (hini : mb.initialized = true)
    (hc : nd.mmapCount < 2 ^ 31) {rounds i unmappedLen : Nat} (hi : i + rounds = nd.mmapCount)
    (hm : rounds ≠ 0 → unmappedLen = i * fgdsMmapSegmentSize) :
    (unmapLoop os mb nd rounds i unmappedLen).2 =
      (List.range' i rounds).flatMap fun j => (mapping nd j).unmapCalls mb := by
  induction rounds generalizing i unmappedLen with
  | zero => rfl
  | succ rounds ih =>
    have hnext : rounds ≠ 0 → u64 (unmappedLen + (nd.segLen i : Nat)) =
        (i + 1) * fgdsMmapSegmentSize := by
      intro hr
      rw [MmapNode.segLen, if_neg (by omega), hm (by omega)]
      apply u64_eq
      · push_cast; ring
      · simp only [fgdsMmapSegmentSize]; omega
    have hrest := ih (by omega) hnext
    simp only [unmapLoop, fgdsDeregmemInner, hini, not_true_eq_false, ↓reduceIte, hos.ioctlUnmap,
      hos.munmap, hrest]
    rw [List.range'_succ, List.flatMap_cons, hm (by omega)]
    simp only [Mapping.unmapCalls, Mapping.para, mapping, Nat.cast_mul, List.cons_append,
      List.nil_append]

/-- What `fgds_deregmem` does once the lookup selected a node of the right length. -/
theorem fgdsDeregmem_found (hf : findFgdsMmapNode mb.head a l = some nd) (hl : nd.length = l)
    (hm : nd.isMapped = true) {head : List MmapNode}
    (hdel : deleteFgdsMmapNode mb.head nd = some head) :
    fgdsDeregmem os mb a l =
      ⟨(unmapLoop os mb nd nd.mmapCount 0 0).1, { mb with head },
        (unmapLoop os mb nd nd.mmapCount 0 0).2, some nd⟩ := by
  simp [fgdsDeregmem, hf, hl, hm, hdel]

/-- It refuses, and does nothing, when the lookup selects no node or one of another length. -/
theorem fgdsDeregmem_refused
    (h : ∀ nd, findFgdsMmapNode mb.head a l = some nd → nd.length ≠ l) :
    fgdsDeregmem os mb a l = ⟨-1, mb, [], none⟩ := by
  cases hf : findFgdsMmapNode mb.head a l with
  | none => simp [fgdsDeregmem, hf]
  | some nd => simp [fgdsDeregmem, hf, h nd hf]

end Deregmem

/-! ## Unlinking -/

/-- The node unlinked is the first one with the base address. -/
theorem deleteFgdsMmapNode_eq (head : List MmapNode) (nd : MmapNode) :
    deleteFgdsMmapNode head nd =
      if head.any (fun m => m.gpuAddr = nd.gpuAddr) then
        some (head.eraseP fun m => m.gpuAddr = nd.gpuAddr)
      else none := by
  induction head with
  | nil => rfl
  | cons m rest ih =>
    by_cases hm : m.gpuAddr = nd.gpuAddr
    · simp [deleteFgdsMmapNode, hm]
    · simp only [deleteFgdsMmapNode, hm, ↓reduceIte, ih, List.any_cons, decide_false,
        Bool.false_or, List.eraseP_cons, cond_false]
      split <;> rfl

/-! ## Descriptors and what is held -/

/-- The descriptor that an `mmap` or an ioctl is made with. -/
def OsCall.fd : OsCall → Option Int
  | .mmap fd _ _ => some fd
  | .munmap _ _ _ => none
  | .ioctlMap fd _ _ => some fd
  | .ioctlUnmap fd _ _ => some fd

/-- A host mapping, or a registration that the kernel made for a MAP. -/
inductive Held where
  | host (addr len : Nat)
  | kernel (m : Mapping)
  deriving DecidableEq, Repr

/-- What a call acquires or gives back, if it succeeds. -/
def OsCall.events : OsCall → List (Event Held)
  | .mmap _ len (some v) => [.acquire (.host v len)]
  | .mmap _ _ none => []
  | .munmap addr len ret => if ret = 0 then [.release (.host addr len)] else []
  | .ioctlMap _ p ret =>
    if ret = 0 then [.acquire (.kernel ⟨p.gpuAddr, p.hostVaddr, p.gpuAddrSize⟩)] else []
  | .ioctlUnmap _ p ret =>
    if ret = 0 then [.release (.kernel ⟨p.gpuAddr, p.hostVaddr, p.gpuAddrSize⟩)] else []

def callEvents (calls : List OsCall) : List (Event Held) := calls.flatMap OsCall.events

section Fd

variable {os : Os} {mb : MmapBuffer} {d : Int} {a l : Nat}

theorem mapCleanup_fd (count left : Nat) (vaddrs : List Nat) {c : OsCall}
    (hc : c ∈ mapCleanup os count left vaddrs) : c.fd = none := by
  obtain ⟨x, _, rfl⟩ := List.mem_map.mp hc
  rfl

theorem fgdsRegmemInner_fd {i gpuAddr hostVaddr len : Nat} {c : OsCall}
    (hc : c ∈ (fgdsRegmemInner os mb i gpuAddr hostVaddr len).2) : c.fd = some mb.devFd := by
  unfold fgdsRegmemInner at hc
  split at hc
  · cases hc
  · rw [List.mem_singleton.mp hc]
    rfl

theorem mapLoop_fd {gpuAddr count left rounds i mmapedLen : Nat} {vaddrs : List Nat} {c : OsCall}
    (hc : c ∈ (mapLoop os mb gpuAddr count left rounds i mmapedLen vaddrs).2.2) {fd : Int}
    (hfd : c.fd = some fd) : fd = mb.devFd := by
  induction rounds generalizing i mmapedLen vaddrs with
  | zero => cases hc
  | succ rounds ih =>
    have hfirst : ∀ {len : Nat} {ret : Option Nat}, c = .mmap mb.devFd len ret → fd = mb.devFd := by
      rintro len ret rfl
      exact (Option.some.inj hfd).symm
    have hclean : ∀ {vs : List Nat}, c ∈ mapCleanup os count left vs → fd = mb.devFd := by
      intro vs hmem
      rw [mapCleanup_fd count left vs hmem] at hfd
      cases hfd
    have hmap : ∀ {g h n : Nat}, c ∈ (fgdsRegmemInner os mb i g h n).2 → fd = mb.devFd := by
      intro g h n hmem
      rw [fgdsRegmemInner_fd hmem] at hfd
      exact (Option.some.inj hfd).symm
    rw [mapLoop] at hc
    cases hmm : os.mmap i (mapLen count left i) with
    | none =>
      simp only [hmm] at hc
      rcases List.mem_cons.mp hc with hc | hc
      · exact hfirst hc
      · exact hclean hc
    | some v =>
      simp only [hmm] at hc
      split at hc
      · rw [List.cons_append] at hc
        rcases List.mem_cons.mp hc with hc | hc
        · exact hfirst hc
        · rcases List.mem_append.mp hc with hc | hc
          · exact hmap hc
          · exact hclean hc
      · rw [List.cons_append] at hc
        rcases List.mem_cons.mp hc with hc | hc
        · exact hfirst hc
        · rcases List.mem_append.mp hc with hc | hc
          · exact hmap hc
          · exact ih hc

/-- A call of `fgds_regmem` makes the calls of its loop, if it gets there. -/
theorem fgdsRegmem_calls {run : Bool × List Nat × List OsCall}
    (hrun : mapSegments os { mb with deviceId := d } a l = run) :
    (fgdsRegmem os mb d a l).calls = [] ∨ (fgdsRegmem os mb d a l).calls = run.2.2 := by
  unfold fgdsRegmem
  cases hself : os.mallocNode with
  | none => exact Or.inl rfl
  | some self =>
    dsimp only
    rw [hrun]
    split
    · exact Or.inl rfl
    · split
      · exact Or.inl rfl
      · split
        · exact Or.inr rfl
        · exact Or.inr rfl

theorem fgdsRegmem_fd {c : OsCall} (hc : c ∈ (fgdsRegmem os mb d a l).calls) {fd : Int}
    (hfd : c.fd = some fd) : fd = mb.devFd := by
  generalize hrun : mapSegments os { mb with deviceId := d } a l = run
  rcases fgdsRegmem_calls hrun with h | h
  · rw [h] at hc
    cases hc
  · rw [h, ← hrun, mapSegments] at hc
    have hfd' := mapLoop_fd hc hfd
    exact hfd'

theorem mapSegments_acts {run : Bool × List Nat × List OsCall}
    (hrun : mapSegments os mb a l = run) :
    run.1 = true ∨ ∃ c ∈ run.2.2, c.fd = some mb.devFd := by
  rw [← hrun, mapSegments]
  cases (s32 (mmapCountOf l)).toNat with
  | zero => exact Or.inl rfl
  | succ rounds =>
    right
    rw [mapLoop]
    generalize mapLen (mmapCountOf l) (l % fgdsMmapSegmentSize) 0 = len
    cases os.mmap 0 len with
    | none => exact ⟨.mmap mb.devFd len none, by simp, rfl⟩
    | some v =>
      dsimp only
      split
      · exact ⟨.mmap mb.devFd len (some v), by simp, rfl⟩
      · exact ⟨.mmap mb.devFd len (some v), by simp, rfl⟩

/-- A request that passes the checks maps nothing and returns 0, or begins with an `mmap`. -/
theorem fgdsRegmem_acts (mb : MmapBuffer) (d : Int) (a : Nat) {self : Nat}
    (hself : os.mallocNode = some self) (hal : l % fgdsGpuPageSize = 0)
    (hva : os.mallocVaddrs = true) :
    (fgdsRegmem os mb d a l).ret = 0 ∨
      ∃ c ∈ (fgdsRegmem os mb d a l).calls, c.fd = some mb.devFd := by
  obtain ⟨run, hrun⟩ : ∃ run, mapSegments os { mb with deviceId := d } a l = run := ⟨_, rfl⟩
  have hcalls := mapSegments_acts hrun
  simp only [fgdsRegmem, hself, hrun, hal, hva, not_true_eq_false, ↓reduceIte, ne_eq]
  split
  · rename_i hfail
    exact Or.inr (hcalls.resolve_left hfail)
  · exact Or.inl rfl

/-- A request that fails a check makes no call. -/
theorem fgdsRegmem_idle (mb : MmapBuffer) (d : Int) (a : Nat)
    (h : os.mallocNode = none ∨ l % fgdsGpuPageSize ≠ 0 ∨ os.mallocVaddrs = false) :
    (fgdsRegmem os mb d a l).ret ≠ 0 ∧ (fgdsRegmem os mb d a l).calls = [] := by
  obtain ⟨run, hrun⟩ : ∃ run, mapSegments os { mb with deviceId := d } a l = run := ⟨_, rfl⟩
  cases hself : os.mallocNode with
  | none => simp [fgdsRegmem, hself]
  | some self =>
    simp only [fgdsRegmem, hself, hrun]
    split
    · exact ⟨by simp [eFault], rfl⟩
    · split
      · exact ⟨by simp, rfl⟩
      · rename_i hal hva
        simp [hself, not_not.mp hal, not_not.mp hva] at h

theorem fgdsRegmem_keeps : (fgdsRegmem os mb d a l).buffer.devFd = mb.devFd ∧
    (fgdsRegmem os mb d a l).buffer.initialized = mb.initialized := by
  unfold fgdsRegmem
  cases os.mallocNode with
  | none => exact ⟨rfl, rfl⟩
  | some self =>
    dsimp only
    generalize mapSegments os { mb with deviceId := d } a l = run
    split
    · exact ⟨rfl, rfl⟩
    · split
      · exact ⟨rfl, rfl⟩
      · split
        · exact ⟨rfl, rfl⟩
        · exact ⟨rfl, rfl⟩

theorem fgdsDeregmem_keeps : (fgdsDeregmem os mb a l).buffer.devFd = mb.devFd ∧
    (fgdsDeregmem os mb a l).buffer.initialized = mb.initialized := by
  unfold fgdsDeregmem
  split
  · exact ⟨rfl, rfl⟩
  · split
    · exact ⟨rfl, rfl⟩
    · split
      · exact ⟨rfl, rfl⟩
      · exact ⟨rfl, rfl⟩

theorem unmapLoop_fd {nd : MmapNode} {rounds i unmappedLen : Nat} {c : OsCall}
    (hc : c ∈ (unmapLoop os mb nd rounds i unmappedLen).2) {fd : Int} (hfd : c.fd = some fd) :
    fd = mb.devFd := by
  induction rounds generalizing i unmappedLen with
  | zero => cases hc
  | succ rounds ih =>
    simp only [unmapLoop] at hc
    rcases List.mem_append.mp hc with hc | hc
    · unfold fgdsDeregmemInner at hc
      split at hc
      · cases hc
      · rw [List.mem_singleton.mp hc] at hfd
        exact (Option.some.inj hfd).symm
    · rcases List.mem_cons.mp hc with rfl | hc
      · cases hfd
      · exact ih hc

theorem fgdsDeregmem_fd {c : OsCall} (hc : c ∈ (fgdsDeregmem os mb a l).calls) {fd : Int}
    (hfd : c.fd = some fd) : fd = mb.devFd := by
  unfold fgdsDeregmem at hc
  split at hc
  · cases hc
  · split at hc
    · cases hc
    · split at hc
      · cases hc
      · exact unmapLoop_fd hc hfd

end Fd

end Fgds.Regmem
