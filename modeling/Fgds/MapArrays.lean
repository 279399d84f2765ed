import Fgds.KernelHeap

/-!
# The arrays of a mapping

`fgds_map_dev_addr_inner` computes how many GPU pages and how many pages of the host a length
needs, allocates arrays for them and fills these in loops with `int` counters. The length comes
from the process. Here the loops are modelled index by index, for every 64-bit length and an
allocator that may grant anything.

* `fgdsMapDevAddrInner_arrays`: the pages handed to `vm_insert_pages` are those of the model
  without indices;
* `map_arrays_in_bounds_iff`: all accesses are in bounds, the pages cover the length and lie in
  the BAR if and only if the length is 0, or at least one GPU page and at most 128TB, with a BAR
  of at least one GPU page;
* `map_arrays_overrun`: a length of 4096, with one entry allocated and 16 written.
-/

namespace Fgds.MapArrays

open Fgds.Lib.CInt Fgds.Device Fgds.Remap Fgds.KernelMap
open Fgds.KernelHeap (nrDevPages hostPageNum)

/-! ## The loops of `fgds_map_dev_addr_inner` -/

/-- What a call does with its arrays before it calls `vm_insert_pages`: the indices of
`map->addrs` that are cleared, those of `gd->pages->pages` that are read and saved under the same
index of `dev_page_addrs`, those of `dev_page_addrs` that are read back, and the indices of
`ppages` that are written, each with the kernel address whose page is stored. -/
structure Arrays where
  nrDevPages : Nat
  hostPageNum : Nat
  cleared : List Nat
  saved : List Nat
  fetched : List Nat
  ppages : List (Nat × Nat)
  deriving DecidableEq, Repr

section Build

variable (env : MapEnv) (dev : FgdsDev) (va devaddr devLen : Nat)

/-- `gd->pages->pages[i]`: the physical address of a GPU page, or NULL. -/
def pageEntry (i : Nat) : Option Nat :=
  ((env.getPages devaddr (u64 (fgdsGpuPageSize * nrDevPages devLen : Nat))).2.getD []).getD i none

/-- The inner loop for GPU page `i`. -/
def fillPage (i : Nat) : List (Nat × Nat) :=
  (intIndices (fgdsGpuPageSize / pageSize)).map fun j =>
    (u64 (i * (fgdsGpuPageSize / pageSize) + j : Nat),
      u64 (u64 (va + barOff dev ((pageEntry env devaddr devLen i).getD 0)) + j * pageSize))

/-- The arrays of a call that gets past all its checks. -/
def mapArrays : Option Arrays :=
  let indices := intIndices (nrDevPages devLen)
  if devLen < fgdsGpuPageSize ∧ devLen % pageSize ≠ 0 then none
  else if ¬ (env.kzallocAddrs && env.kmallocPages && env.kmallocMap && env.kmallocRegion) then none
  else if ¬ indices.all fun i => (pageEntry env devaddr devLen i).isSome then none
  else if indices.any fun i =>
      barOff dev ((pageEntry env devaddr devLen i).getD 0) > u64 (dev.size - fgdsGpuPageSize) then
    none
  else
    some
      { nrDevPages := nrDevPages devLen
        hostPageNum := hostPageNum devLen
        cleared := indices
        saved := indices
        fetched := indices
        ppages := indices.flatMap (fillPage env dev va devaddr devLen) }

end Build

/-! ## What is expected of the arrays -/

/-- Every index is below the number of entries, the GPU pages cover the length, and each page that
is inserted is one of the remapped BAR. -/
structure InBounds (dev : FgdsDev) (va devLen : Nat) (t : Arrays) : Prop where
  ppages : ∀ f ∈ t.ppages, f.1 < t.hostPageNum
  cleared : ∀ i ∈ t.cleared, i < t.nrDevPages
  saved : ∀ i ∈ t.saved, i < t.nrDevPages
  fetched : ∀ i ∈ t.fetched, i < t.nrDevPages
  covers : devLen ≤ t.nrDevPages * fgdsGpuPageSize
  inBar : ∀ k < t.hostPageNum, ∃ a, (k, a) ∈ t.ppages ∧ va ≤ a ∧ a + pageSize ≤ va + dev.size

/-! ## Indices -/

section Indices

variable {env : MapEnv} {dev : FgdsDev} {va devaddr devLen : Nat} {t : Arrays}

theorem nrDevPages_lt (devLen : Nat) : nrDevPages devLen < 2 ^ 48 := by
  unfold nrDevPages u64
  simp only [fgdsGpuPageSize]
  omega

/-- The GPU pages of a length, if the sum of the rounding does not wrap around. -/
theorem nrDevPages_eq (h : devLen + fgdsGpuPageSize ≤ 2 ^ 64) :
    nrDevPages devLen = (devLen + fgdsGpuPageSize - 1) / fgdsGpuPageSize := by
  have hsum : u64 ((devLen : Int) + fgdsGpuPageSize - 1) = devLen + fgdsGpuPageSize - 1 := by
    simp only [fgdsGpuPageSize] at *
    exact u64_eq (by omega) (by omega)
  rw [nrDevPages, hsum]

theorem nrDevPages_wraps (hlt : devLen < 2 ^ 64) (h : 2 ^ 64 < devLen + fgdsGpuPageSize) :
    nrDevPages devLen = 0 := by
  unfold nrDevPages u64
  simp only [fgdsGpuPageSize] at *
  omega

theorem hostPageNum_small (hlt : devLen < fgdsGpuPageSize) (hal : devLen % pageSize = 0) :
    hostPageNum devLen = devLen / pageSize := by
  unfold hostPageNum u64
  rw [if_pos hlt]
  simp only [fgdsGpuPageSize, pageSize] at *
  omega

theorem hostPageNum_large (h : fgdsGpuPageSize ≤ devLen) :
    hostPageNum devLen = nrDevPages devLen * 16 := by
  have hnr := nrDevPages_lt devLen
  rw [hostPageNum, if_neg (Nat.not_lt.mpr h)]
  exact u64_eq rfl (by omega)

theorem intIndices_nr (devLen : Nat) :
    intIndices (nrDevPages devLen) = List.range (min (nrDevPages devLen) (2 ^ 31)) :=
  intIndices_eq (by have := nrDevPages_lt devLen; omega)

theorem intIndices_perGpuPage : intIndices (fgdsGpuPageSize / pageSize) = List.range 16 :=
  intIndices_eq (by simp only [fgdsGpuPageSize, pageSize]; omega)

/-- The entries for GPU page `i`. -/
theorem mem_fillPage {i : Nat} (hi : i < 2 ^ 48) {f : Nat × Nat} :
    f ∈ fillPage env dev va devaddr devLen i ↔ ∃ j < 16, f = (i * 16 + j,
      u64 (u64 (va + barOff dev ((pageEntry env devaddr devLen i).getD 0)) + j * pageSize)) := by
  unfold fillPage
  rw [intIndices_perGpuPage]
  simp only [List.mem_map, List.mem_range]
  refine exists_congr fun j => and_congr_right fun hj => ?_
  have hindex : u64 (i * (fgdsGpuPageSize / pageSize) + j : Nat) = i * 16 + j :=
    u64_eq rfl (by omega)
  rw [hindex, eq_comm]

/-- What is known of a call that got past its checks. -/
structure Built (env : MapEnv) (dev : FgdsDev) (va devaddr devLen : Nat) (t : Arrays) : Prop where
  length : fgdsGpuPageSize ≤ devLen ∨ devLen % pageSize = 0
  inBar : ∀ i < min (nrDevPages devLen) (2 ^ 31),
    barOff dev ((pageEntry env devaddr devLen i).getD 0) ≤ u64 (dev.size - fgdsGpuPageSize)
  nr : t.nrDevPages = nrDevPages devLen
  host : t.hostPageNum = hostPageNum devLen
  cleared : t.cleared = List.range (min (nrDevPages devLen) (2 ^ 31))
  saved : t.saved = List.range (min (nrDevPages devLen) (2 ^ 31))
  fetched : t.fetched = List.range (min (nrDevPages devLen) (2 ^ 31))
  ppages : ∀ f, f ∈ t.ppages ↔ ∃ i < min (nrDevPages devLen) (2 ^ 31), ∃ j < 16,
    f = (i * 16 + j,
      u64 (u64 (va + barOff dev ((pageEntry env devaddr devLen i).getD 0)) + j * pageSize))

theorem mapArrays_built (h : mapArrays env dev va devaddr devLen = some t) :
    Built env dev va devaddr devLen t := by
  have hnr := nrDevPages_lt devLen
  unfold mapArrays at h
  dsimp only at h
  rw [intIndices_nr] at h
  split at h
  · cases h
  rename_i hlength
  split at h
  · cases h
  split at h
  · cases h
  split at h
  · cases h
  rename_i hbar
  cases h
  simp only [List.any_eq_true, List.mem_range, decide_eq_true_eq, not_exists, not_and,
    Nat.not_lt] at hbar
  refine ⟨by omega, hbar, rfl, rfl, rfl, rfl, rfl, fun f => ?_⟩
  simp only [List.mem_flatMap, List.mem_range]
  exact exists_congr fun i => and_congr_right fun hi => mem_fillPage (by omega)

theorem Built.entry (hb : Built env dev va devaddr devLen t) {i j : Nat}
    (hi : i < min (nrDevPages devLen) (2 ^ 31)) (hj : j < 16) :
    (i * 16 + j, u64 (u64 (va + barOff dev ((pageEntry env devaddr devLen i).getD 0)) +
      j * pageSize)) ∈ t.ppages :=
  (hb.ppages _).mpr ⟨i, hi, j, hj, rfl⟩

end Indices

/-! ## The pages that are inserted -/

/-- What `vm_insert_pages` finds in the first `host_page_num` entries of `ppages`. -/
def Arrays.pages (t : Arrays) (p : Platform) : List Nat :=
  (t.ppages.map fun f => p.virtToPage f.2).take t.hostPageNum

theorem readPages_eq (table : Option (List (Option Nat))) (n : Nat) :
    readPages table n =
      if (List.range n).all fun i => ((table.getD []).getD i none).isSome then
        .addrs ((List.range n).map fun i => ((table.getD []).getD i none).getD 0)
      else if table = none then .oops else .missing := by
  unfold readPages
  cases n with
  | zero => rfl
  | succ n =>
    rw [if_neg (by omega)]
    cases table with
    | none => simp [List.range_succ_eq_map]
    | some es => simp only [Option.getD_some, reduceCtorEq, ↓reduceIte]

theorem fillPage_pages (p : Platform) (env : MapEnv) (dev : FgdsDev) (va devaddr devLen i : Nat) :
    (fillPage env dev va devaddr devLen i).map (fun f => p.virtToPage f.2) =
      gpuPagePages p dev va ((pageEntry env devaddr devLen i).getD 0) := by
  unfold fillPage gpuPagePages
  rw [intIndices_perGpuPage, List.map_map]
  rfl

theorem fillPages_pages (p : Platform) (env : MapEnv) (dev : FgdsDev) (va devaddr devLen n : Nat) :
    ((List.range n).map fun i => (pageEntry env devaddr devLen i).getD 0).flatMap
        (gpuPagePages p dev va) =
      ((List.range n).flatMap (fillPage env dev va devaddr devLen)).map
        fun f => p.virtToPage f.2 := by
  rw [List.flatMap_map, List.map_flatMap]
  exact List.flatMap_congr fun i _ => (fillPage_pages p env dev va devaddr devLen i).symm

theorem mapOut_inserted {mb : Mbuffer} {ret : Int} {res : MapResult}
    (h : some (mapOut mb ret []) = some res) : res.inserted = [] := by
  cases h
  rfl

/-- A check of the call inserts nothing where it refuses. -/
theorem mapOut_guard {c : Prop} [Decidable c] {mb : Mbuffer} {ret : Int} {rest : Option MapResult}
    {res : MapResult} (h : (if c then some (mapOut mb ret []) else rest) = some res) :
    res.inserted = [] ∨ ¬ c ∧ rest = some res := by
  rcases mapOut_check h with ⟨_, rfl⟩ | hpass
  · exact .inl rfl
  · exact .inr hpass

section Inserted

variable (p : Platform) (env : MapEnv) {mb : Mbuffer} {dev : FgdsDev} {va : Nat}
  (hdev : mb.dev = some dev) (hva : dev.pciMemVa = some va) (devaddr : Nat) {devLen : Nat}
include hdev hva

omit hdev hva in
theorem mapArrays_refused (hrefused : devLen < fgdsGpuPageSize ∧ devLen % pageSize ≠ 0 ∨
      ¬ (env.kzallocAddrs && env.kmallocPages && env.kmallocMap && env.kmallocRegion)) :
    mapArrays env dev va devaddr devLen = none := by
  unfold mapArrays
  split
  · rfl
  · rename_i hlength
    rcases hrefused with hshort | hgrant
    · exact absurd hshort hlength
    · exact if_pos hgrant

/-- Nothing is inserted if the length is refused or an allocation fails. -/
theorem inserted_of_refused (hrefused : devLen < fgdsGpuPageSize ∧ devLen % pageSize ≠ 0 ∨
      ¬ (env.kzallocAddrs && env.kmallocPages && env.kmallocMap && env.kmallocRegion)) {res}
    (h : fgdsMapDevAddrInner p env mb devaddr devLen = some res) : res.inserted = [] := by
  unfold fgdsMapDevAddrInner at h
  simp only [hdev, hva] at h
  rcases mapOut_guard h with hnone | ⟨hlength, h⟩
  · exact hnone
  rcases mapOut_guard h with hnone | ⟨hadr, h⟩
  · exact hnone
  rcases mapOut_guard h with hnone | ⟨hpgs, h⟩
  · exact hnone
  rcases mapOut_guard h with hnone | ⟨hmap, h⟩
  · exact hnone
  rcases mapOut_guard h with hnone | ⟨hreg, h⟩
  · exact hnone
  -- past the last guard nothing was refused
  rcases hrefused with hshort | hgrant
  · exact absurd hshort hlength
  · rw [not_not] at hadr hpgs hmap hreg
    rw [hadr, hpgs, hmap, hreg] at hgrant
    exact absurd rfl hgrant

/-- The call reaches `vm_insert_pages` if and only if the arrays are built, and hands over their
pages. -/
theorem fgdsMapDevAddrInner_arrays (hnr : nrDevPages devLen ≤ 2 ^ 31) :
    match mapArrays env dev va devaddr devLen with
    | none => ∀ res, fgdsMapDevAddrInner p env mb devaddr devLen = some res → res.inserted = []
    | some t => ∃ res, fgdsMapDevAddrInner p env mb devaddr devLen = some res ∧
        res.ret = (env.insertPages mb.cVaddr (t.pages p)).1 ∧
        res.inserted = (t.pages p).take (env.insertPages mb.cVaddr (t.pages p)).2 := by
  by_cases hrefused : devLen < fgdsGpuPageSize ∧ devLen % pageSize ≠ 0 ∨
      ¬ (env.kzallocAddrs && env.kmallocPages && env.kmallocMap && env.kmallocRegion)
  · rw [mapArrays_refused env devaddr hrefused]
    exact fun res => inserted_of_refused p env hdev hva devaddr hrefused
  rw [not_or, not_not] at hrefused
  obtain ⟨hshort, hgrant⟩ := hrefused
  have hindices : intIndices (nrDevPages devLen) = List.range (nrDevPages devLen) := by
    rw [intIndices_nr, Nat.min_eq_left hnr]
  -- the numbers that the call computes, under their names
  have hnrDef : u64 ((devLen : Int) + fgdsGpuPageSize - 1) / fgdsGpuPageSize = nrDevPages devLen :=
    rfl
  have hhost : (if devLen < fgdsGpuPageSize then u64 ((devLen : Int) + pageSize - 1) / pageSize
      else u64 (nrDevPages devLen * (fgdsGpuPageSize / pageSize) : Nat)) = hostPageNum devLen := rfl
  have hentry : ∀ i, ((env.getPages devaddr
      (u64 (fgdsGpuPageSize * nrDevPages devLen : Nat))).2.getD []).getD i none =
        pageEntry env devaddr devLen i := fun _ => rfl
  unfold mapArrays fgdsMapDevAddrInner
  simp only [hdev, hva, hindices, readPages_eq]
  rw [hnrDef]
  simp only [hentry, hhost]
  rw [if_neg hshort, if_neg hshort, if_neg (not_not.mpr hgrant)]
  simp only [Bool.and_eq_true] at hgrant
  obtain ⟨⟨⟨hadr, hpgs⟩, hmap⟩, hreg⟩ := hgrant
  simp only [hadr, hpgs, hmap, hreg, not_true_eq_false, ↓reduceIte]
  -- the page table and the check against the BAR
  by_cases hall : ((List.range (nrDevPages devLen)).all fun i =>
      (pageEntry env devaddr devLen i).isSome) = true
  · rw [if_neg (not_not.mpr hall), if_pos hall]
    simp only [List.any_map, Function.comp_def]
    by_cases hbar : ((List.range (nrDevPages devLen)).any fun i =>
        decide (barOff dev ((pageEntry env devaddr devLen i).getD 0) >
          u64 (dev.size - fgdsGpuPageSize))) = true
    · rw [if_pos hbar]
      dsimp only
      rw [if_pos hbar]
      exact fun res => mapOut_inserted
    · rw [if_neg hbar]
      dsimp only
      rw [if_neg hbar, fillPages_pages]
      split
      · exact ⟨_, rfl, rfl, rfl⟩
      · rename_i hins
        exact ⟨_, rfl, (not_not.mp hins).symm, rfl⟩
  · rw [if_pos hall, if_neg hall]
    intro res h
    split at h
    · cases h
    · exact mapOut_inserted h
    · rename_i hread
      split at hread <;> cases hread

end Inserted

/-! ## When they are in bounds -/

section Bounds

variable {env : MapEnv} {dev : FgdsDev} {va devaddr devLen : Nat} {t : Arrays}

/-- A length below one GPU page gets fewer entries than the 16 that are written. -/
theorem Built.small_overrun (hb : Built env dev va devaddr devLen t) (hpos : 0 < devLen)
    (hlt : devLen < fgdsGpuPageSize) : ¬ InBounds dev va devLen t := by
  intro h
  have hal : devLen % pageSize = 0 := by
    rcases hb.length with hge | hal
    · omega
    · exact hal
  have hnr : nrDevPages devLen = 1 := by
    rw [nrDevPages_eq (by simp only [fgdsGpuPageSize] at *; omega)]
    simp only [fgdsGpuPageSize] at *
    omega
  have hlast := h.ppages _ (hb.entry (i := 0) (j := 15) (by omega) (by decide))
  rw [hb.host, hostPageNum_small hlt hal] at hlast
  simp only [fgdsGpuPageSize, pageSize] at *
  omega

/-- The counter overflows: entries behind `2 ^ 31` GPU pages are never written. -/
theorem Built.unfilled (hb : Built env dev va devaddr devLen t) (hlarge : fgdsGpuPageSize ≤ devLen)
    (hnr : 2 ^ 31 < nrDevPages devLen) : ¬ InBounds dev va devLen t := by
  intro h
  obtain ⟨a, hmem, _⟩ := h.inBar (2 ^ 31 * 16) (by
    rw [hb.host, hostPageNum_large hlarge]
    omega)
  obtain ⟨i, hi, j, hj, heq⟩ := (hb.ppages _).mp hmem
  have hindex := (Prod.mk.inj heq).1
  omega

/-- The 16 pages of a GPU page only fit into a BAR of that size. -/
theorem Built.bar_size (hb : Built env dev va devaddr devLen t) (hlarge : fgdsGpuPageSize ≤ devLen)
    (hnr : 0 < nrDevPages devLen) (h : InBounds dev va devLen t) : fgdsGpuPageSize ≤ dev.size := by
  have hin : ∀ j < 16, ∃ a, a = u64 (u64 (va +
      barOff dev ((pageEntry env devaddr devLen 0).getD 0)) + (j : Nat) * pageSize) ∧
      va ≤ a ∧ a + pageSize ≤ va + dev.size := by
    intro j hj
    obtain ⟨a, hmem, hlo, hhi⟩ := h.inBar j (by
      rw [hb.host, hostPageNum_large hlarge]
      omega)
    obtain ⟨i, hi, j', hj', heq⟩ := (hb.ppages _).mp hmem
    obtain ⟨hindex, haddr⟩ := Prod.mk.inj heq
    obtain ⟨rfl, rfl⟩ : i = 0 ∧ j' = j := by omega
    exact ⟨a, haddr, hlo, hhi⟩
  obtain ⟨a, ha, hlo, hhi⟩ := hin 0 (by decide)
  obtain ⟨c, hc, hlo', hhi'⟩ := hin 15 (by decide)
  generalize barOff dev ((pageEntry env devaddr devLen 0).getD 0) = off at ha hc
  simp only [fgdsGpuPageSize, pageSize, u64] at *
  omega

/-- The arrays with one entry for each GPU page are in bounds whatever the length. -/
theorem Built.inBounds (hb : Built env dev va devaddr devLen t)
    (hppages : ∀ f ∈ t.ppages, f.1 < t.hostPageNum)
    (hcovers : devLen ≤ nrDevPages devLen * fgdsGpuPageSize)
    (hbar : ∀ k < t.hostPageNum, ∃ a, (k, a) ∈ t.ppages ∧ va ≤ a ∧ a + pageSize ≤ va + dev.size) :
    InBounds dev va devLen t := by
  have hindex : ∀ i ∈ List.range (min (nrDevPages devLen) (2 ^ 31)), i < t.nrDevPages := by
    intro i hi
    rw [List.mem_range] at hi
    rw [hb.nr]
    omega
  refine ⟨hppages, ?_, ?_, ?_, ?_, hbar⟩
  · rw [hb.cleared]
    exact hindex
  · rw [hb.saved]
    exact hindex
  · rw [hb.fetched]
    exact hindex
  · rw [hb.nr]
    exact hcovers

theorem Built.empty (hb : Built env dev va devaddr devLen t) (hzero : devLen = 0) :
    InBounds dev va devLen t := by
  subst hzero
  have hnr : nrDevPages 0 = 0 := by decide
  have hhost : hostPageNum 0 = 0 := by decide
  refine hb.inBounds (fun f hf => ?_) (Nat.zero_le _) fun k hk => ?_
  · obtain ⟨i, hi, _⟩ := (hb.ppages f).mp hf
    omega
  · rw [hb.host, hhost] at hk
    omega

theorem Built.whole_pages (hb : Built env dev va devaddr devLen t)
    (hend : va + dev.size ≤ 2 ^ 64) (hlarge : fgdsGpuPageSize ≤ devLen) (hmost : devLen ≤ 2 ^ 47)
    (hsize : fgdsGpuPageSize ≤ dev.size) : InBounds dev va devLen t := by
  have hnr : nrDevPages devLen = (devLen + fgdsGpuPageSize - 1) / fgdsGpuPageSize :=
    nrDevPages_eq (by simp only [fgdsGpuPageSize] at *; omega)
  have hcount : nrDevPages devLen ≤ 2 ^ 31 := by
    simp only [fgdsGpuPageSize] at *
    omega
  have hhost : t.hostPageNum = nrDevPages devLen * 16 := by rw [hb.host, hostPageNum_large hlarge]
  refine hb.inBounds (fun f hf => ?_) ?_ fun k hk => ?_
  · obtain ⟨i, hi, j, hj, rfl⟩ := (hb.ppages f).mp hf
    rw [hhost]
    dsimp only
    omega
  · simp only [fgdsGpuPageSize] at *
    omega
  · have hi : k / 16 < min (nrDevPages devLen) (2 ^ 31) := by omega
    have hentry := hb.entry hi (Nat.mod_lt k (by decide : 16 > 0))
    have hoff := hb.inBar _ hi
    have hmax : u64 ((dev.size : Int) - fgdsGpuPageSize) = dev.size - fgdsGpuPageSize := by
      simp only [fgdsGpuPageSize] at *
      exact u64_eq (by omega) (by omega)
    rw [hmax] at hoff
    rw [show k / 16 * 16 + k % 16 = k by omega] at hentry
    refine ⟨_, hentry, ?_⟩
    generalize barOff dev ((pageEntry env devaddr devLen (k / 16)).getD 0) = off at hoff ⊢
    simp only [fgdsGpuPageSize, pageSize, u64] at *
    omega

/-- The arrays of a call that got past its checks are in bounds, cover the length and hold pages
of the BAR only, if and only if the length is 0, or at least one GPU page and at most `2 ^ 31` of
them, and the BAR has at least one GPU page. -/
theorem map_arrays_in_bounds_iff (hlt : devLen < 2 ^ 64) (hend : va + dev.size ≤ 2 ^ 64)
    (h : mapArrays env dev va devaddr devLen = some t) :
    InBounds dev va devLen t ↔
      devLen = 0 ∨ fgdsGpuPageSize ≤ devLen ∧ devLen ≤ 2 ^ 47 ∧ fgdsGpuPageSize ≤ dev.size := by
  have hb := mapArrays_built h
  constructor
  · intro hin
    rcases Nat.eq_zero_or_pos devLen with hzero | hpos
    · exact .inl hzero
    have hlarge : fgdsGpuPageSize ≤ devLen := by
      by_contra hsmall
      exact hb.small_overrun hpos (by omega) hin
    have hcovers := hin.covers
    rw [hb.nr] at hcovers
    have hwrap : devLen + fgdsGpuPageSize ≤ 2 ^ 64 := by
      by_contra hwraps
      rw [nrDevPages_wraps hlt (by omega)] at hcovers
      omega
    have hnr := nrDevPages_eq hwrap
    have hcount : nrDevPages devLen ≤ 2 ^ 31 := by
      by_contra hmany
      exact hb.unfilled hlarge (by omega) hin
    refine .inr ⟨hlarge, ?_, hb.bar_size hlarge ?_ hin⟩
    · simp only [fgdsGpuPageSize] at *
      omega
    · simp only [fgdsGpuPageSize] at *
      omega
  · intro hcond
    rcases hcond with hzero | ⟨hlarge, hmost, hsize⟩
    · exact hb.empty hzero
    · exact hb.whole_pages hend hlarge hmost hsize

end Bounds

/-- Every allocation is granted, and GPU memory lies in one piece from `2 ^ 40` on. -/
def granting : MapEnv :=
  ⟨true, true, true, true, true,
    fun _ n => (0, some ((List.range (n / fgdsGpuPageSize)).map fun i =>
      some (2 ^ 40 + i * fgdsGpuPageSize))),
    fun _ pages => (0, pages.length)⟩

/-- A BAR of 16MB that starts where that memory starts. -/
def smallBar : FgdsDev :=
  ⟨2 ^ 40, 2 ^ 24, some (2 ^ 46), true⟩

theorem map_arrays_one_gpu_page :
    ∃ t, mapArrays granting smallBar (2 ^ 46) (2 ^ 30) fgdsGpuPageSize = some t ∧
      InBounds smallBar (2 ^ 46) fgdsGpuPageSize t := by
  obtain ⟨t, ht, -⟩ := Option.map_eq_some_iff.mp (show
    (mapArrays granting smallBar (2 ^ 46) (2 ^ 30) fgdsGpuPageSize).map Arrays.hostPageNum =
      some 16 by decide +kernel)
  exact ⟨t, ht, (map_arrays_in_bounds_iff (by decide) (by decide) ht).mpr (.inr (by decide))⟩

/-- One page of the host: one entry is allocated and 16 are written. -/
theorem map_arrays_overrun :
    ∃ t, mapArrays granting smallBar (2 ^ 46) (2 ^ 30) pageSize = some t ∧ t.hostPageNum = 1 ∧
      t.ppages.map Prod.fst = List.range 16 ∧ ¬ InBounds smallBar (2 ^ 46) pageSize t := by
  obtain ⟨t, ht, hrun⟩ := Option.map_eq_some_iff.mp (show
    (mapArrays granting smallBar (2 ^ 46) (2 ^ 30) pageSize).map
      (fun t => (t.hostPageNum, t.ppages.map Prod.fst)) = some (1, List.range 16) by
        decide +kernel)
  obtain ⟨hhost, hwritten⟩ := Prod.mk.inj hrun
  exact ⟨t, ht, hhost, hwritten, (mapArrays_built ht).small_overrun (by decide) (by decide)⟩

end Fgds.MapArrays
