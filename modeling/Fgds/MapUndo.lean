import Fgds.GpuMap
import Fgds.KernelHeap

/-!
# A MAP that fails

What should hold of one MAP ioctl on a fresh mmap buffer: it returns 0 exactly when all pages
are mapped; otherwise it returns a negative error, has put back the pages that it pinned, and
leaves a buffer that owns nothing. The failures before `nvidia_p2p_get_pages` do that. None of
the later ones does: an error of `get_pages` is not looked at and leads to a NULL dereference;
a NULL entry of the page table returns 0; a page outside the BAR and a failing
`vm_insert_pages` keep the pin and a dangling `dev_page_addrs`.

* `MapsOrUndoes`: what a MAP should do;
* `maps_or_undoes_iff`: it does so exactly if it stops before `get_pages`, or completes;
* `map_null_entry`: a page table with a NULL entry.
-/

namespace Fgds.MapUndo

open Fgds.Lib.CInt Fgds.Lib.Alloc Fgds.Device Fgds.Remap Fgds.KernelHeap Fgds.GpuMap
open Fgds.KernelMap hiding fgdsMapDevAddrInner fgdsMapDevAddr mapOut
open KernelHeap.Kernel

/-! ## What a MAP should do -/

/-- A buffer without pages, map or addresses. -/
structure Unmapped (b : Buf) : Prop where
  map : b.map = none
  ppages : b.ppages = none
  devPageAddrs : b.devPageAddrs = none
  remap : b.remap = false

/-- The driver and the memory management: `get_pages` stores no table when it fails, and
`vm_insert_pages` returns 0 when it inserted all pages. -/
structure Contract (env : MapEnv) : Prop where
  failed : ∀ va n, (env.getPages va n).1 ≠ 0 → (env.getPages va n).2 = none
  inserted : ∀ v pages, (env.insertPages v pages).1 = 0 →
    (env.insertPages v pages).2 = pages.length

/-- A failed MAP of buffer `i` in the kernel `k`: what it allocated has a number from
`k.heap.next` on. -/
structure Undone (k : Kernel) (i : Nat) (out : MapOutcome) : Prop where
  negative : ∃ r < 0, out.ret = some r
  putBack : ∀ t, k.heap.next ≤ t → out.kernel.heap.kind t = some ⟨.table, i⟩ →
    out.kernel.heap.frees t = 1
  unread : ∀ r, out.got = some r → r ≠ 0 → out.readTable = false
  map : (out.kernel.bufs i).map = none
  ppages : (out.kernel.bufs i).ppages = none
  devPageAddrs : (out.kernel.bufs i).devPageAddrs = none
  unmap : ∀ o, k.heap.next ≤ o → (fgdsMbufferPut out.kernel i).heap.frees o ≤ 1

structure MapsOrUndoes (k : Kernel) (i devLen : Nat) (out : MapOutcome) : Prop where
  zero_iff : out.ret = some 0 ↔
    (out.kernel.bufs i).remap = true ∧ out.inserted.length = hostPageNum devLen
  undone : out.ret ≠ some 0 → Undone k i out

/-- The MAP gets to its end: every page has an entry inside the BAR and is inserted. -/
def Completes (p : Platform) (env : MapEnv) (b : Buf) (devaddr devLen : Nat) : Prop :=
  ∃ dev va l, Reaches env b devLen dev va ∧
    readPages (gotPages env devaddr devLen).2 (nrDevPages devLen) = .addrs l ∧
    l.any (badOffset dev) = false ∧
    (env.insertPages b.cVaddr (hostPages p dev va devLen l)).1 = 0

/-! ## Stopped before `get_pages` -/

/-- What an early failure leaves of the objects it made. -/
structure Clean (k : Kernel) (i : Nat) (k' : Kernel) : Prop where
  buf : k'.bufs i = { k.bufs i with map := none, ppages := none }
  next : k.heap.next ≤ k'.heap.next
  frees : ∀ o, k.heap.next ≤ o → k'.heap.frees o ≤ 1
  noTable : ∀ o, k.heap.next ≤ o → ∀ j, k'.heap.kind o ≠ some ⟨.table, j⟩

/-- Some objects were allocated, none of them a page table, and different ones freed. -/
theorem Clean.of_freed {k k' : Kernel} {i : Nat} (h : Heap Obj) (os : List Nat)
    (hheap : k'.heap = h.freeAll os) (hos : os.Nodup)
    (hbuf : k'.bufs i = { k.bufs i with map := none, ppages := none })
    (hnext : k.heap.next ≤ h.next) (hfrees : h.frees = k.heap.frees)
    (hkind : ∀ o, k.heap.next ≤ o → ∀ j, h.kind o ≠ some ⟨.table, j⟩) : Clean k i k' := by
  refine ⟨hbuf, ?_, fun o ho => ?_, fun o ho j => ?_⟩
  · rwa [hheap, Heap.freeAll_next]
  · have hle := Heap.freeAll_frees_le (h := h) hos o
    rwa [hfrees, (k.heap.unborn o ho).2, ← hheap] at hle
  · rw [hheap, Heap.freeAll_kind]
    exact hkind o ho j

theorem stoppedAt_clean {k k' : Kernel} {i : Nat} {passed : Bool} (h : StoppedAt k i passed k')
    (hb : Unmapped (k.bufs i)) : Clean k i k' := by
  have hnone : ∀ o, k.heap.next ≤ o → k.heap.kind o = none := fun o ho => (k.heap.unborn o ho).1
  cases h with
  | checks =>
    apply Clean.of_freed k.heap []
    · simp [mapOut_heap, hb.map, hb.ppages, Heap.freeAll]
    · simp
    · simp
    · exact Nat.le_refl _
    · rfl
    · intro o ho j
      simp [hnone o ho]
  | pages =>
    apply Clean.of_freed (k.heap.alloc ⟨.devPageAddrs, i⟩) [k.heap.next]
    · simp [mapOut_heap, hb.map, Heap.freeAll]
    · simp
    · simp
    · simp
    · rfl
    · intro o ho j
      simp [Heap.alloc_kind, hnone o ho]
  | map =>
    apply Clean.of_freed ((k.heap.alloc ⟨.devPageAddrs, i⟩).alloc ⟨.ppages, i⟩)
      [k.heap.next + 1, k.heap.next]
    · simp [mapOut_heap, withPages, Heap.freeAll]
    · simp
    · simp [withPages]
    · simp only [Heap.alloc_next]
      omega
    · rfl
    · intro o ho j
      simp only [Heap.alloc_kind, hnone o ho]
      split <;> [simp; (split <;> simp)]
  | region =>
    apply Clean.of_freed
      (((k.heap.alloc ⟨.devPageAddrs, i⟩).alloc ⟨.ppages, i⟩).alloc ⟨.vmap, i⟩)
      [k.heap.next + 2, k.heap.next + 1, k.heap.next]
    · simp [mapOut_heap, withPages, withMap, Heap.freeAll]
    · simp
    · simp [withPages, withMap]
    · simp only [Heap.alloc_next]
      omega
    · rfl
    · intro o ho j
      simp only [Heap.alloc_kind, hnone o ho]
      split <;> [simp; (split <;> [simp; (split <;> simp)])]

/-! ## From `get_pages` on -/

theorem readPages_length {table : Option (List (Option Nat))} {n : Nat} {l : List Nat}
    (h : readPages table n = .addrs l) : l.length = n := by
  unfold readPages at h
  split at h
  · rename_i hn
    cases h
    exact hn.symm
  · split at h
    · cases h
    · split at h
      · cases h
        simp
      · cases h

theorem hostPageNum_le (devLen : Nat) :
    hostPageNum devLen ≤ nrDevPages devLen * (fgdsGpuPageSize / pageSize) := by
  unfold hostPageNum
  split
  · rename_i hlt
    simp only [nrDevPages, u64, fgdsGpuPageSize, pageSize] at *
    omega
  · unfold u64
    omega

theorem hostPages_length (p : Platform) (dev : FgdsDev) (va : Nat) {devLen : Nat} {l : List Nat}
    (hl : l.length = nrDevPages devLen) :
    (hostPages p dev va devLen l).length = hostPageNum devLen := by
  have hflat : (l.flatMap (gpuPagePages p dev va)).length =
      nrDevPages devLen * (fgdsGpuPageSize / pageSize) := by
    simp [List.length_flatMap, gpuPagePages, hl]
  rw [hostPages, List.length_take, hflat]
  exact Nat.min_eq_left (hostPageNum_le devLen)

/-- Without a table there is nothing missing in it. -/
theorem readPages_none_ne_missing (n : Nat) : readPages none n ≠ .missing := by
  unfold readPages
  split <;> simp

@[simp] theorem withRegion_self (k : Kernel) (i : Nat) :
    (withRegion k i).bufs i =
      { k.bufs i with ppages := some (k.heap.next + 1), map := some (k.heap.next + 2) } := by
  simp [withRegion, withMap, withPages]

/-- UNMAP of a buffer that owns nothing frees at most the buffer itself. -/
theorem put_owning_nothing {k : Kernel} {i : Nat} (hb : Unmapped (k.bufs i)) {o : Nat}
    (ho : o ≠ i) : (fgdsMbufferPut k i).heap.frees o = k.heap.frees o := by
  unfold fgdsMbufferPut
  dsimp only
  split
  · simp [fgdsMbufferFree, releaseMapped, hb.remap, hb.devPageAddrs, hb.ppages,
      Heap.free_frees_other _ ho]
  · simp

section Main

variable {p : Platform} {env : MapEnv} {k : Kernel} {i : Nat}

/-- A MAP that stops before `get_pages` undoes itself. -/
theorem stops_undone {devaddr devLen : Nat} (hi : k.heap.kind i = some ⟨.mbuffer, i⟩)
    (hb : Unmapped (k.bufs i)) (h : ∀ dev va, ¬ Reaches env (k.bufs i) devLen dev va) :
    MapsOrUndoes k i devLen (fgdsMapDevAddrInner p env k i devaddr devLen) := by
  obtain ⟨passed, k', ret, hret, hstop, hout⟩ := fgdsMapDevAddrInner_stops (p := p) devaddr h
  have hclean := stoppedAt_clean hstop hb
  have hbuf : Unmapped (k'.bufs i) := by
    rw [hclean.buf]
    exact ⟨rfl, rfl, hb.devPageAddrs, hb.remap⟩
  have hne : some ret ≠ some 0 := fun heq => by
    cases heq
    omega
  rw [hout]
  refine ⟨⟨fun hzero => absurd hzero hne, fun hremap => ?_⟩, fun _ =>
    ⟨⟨ret, hret, rfl⟩, fun t ht htable => absurd htable (hclean.noTable t ht i), fun r hr => ?_,
      hbuf.map, hbuf.ppages, hbuf.devPageAddrs, fun o ho => ?_⟩⟩
  · have hmapped : (k'.bufs i).remap = true := hremap.1
    rw [hbuf.remap] at hmapped
    cases hmapped
  · cases hr
  · have hoi : o ≠ i := fun heq => by
      have hlt := Heap.lt_of_kind hi
      omega
    rw [stopped, put_owning_nothing hbuf hoi]
    exact hclean.frees o ho

/-- A MAP that gets further either completes or breaks the rule. -/
theorem reaches_iff (henv : Contract env) {devaddr devLen va : Nat} {dev : FgdsDev}
    (hb : Unmapped (k.bufs i)) (h : Reaches env (k.bufs i) devLen dev va) :
    MapsOrUndoes k i devLen (fgdsMapDevAddrInner p env k i devaddr devLen) ↔
      Completes p env (k.bufs i) devaddr devLen := by
  have hcv : ((withRegion k i).bufs i).cVaddr = (k.bufs i).cVaddr := by rw [withRegion_self]
  have hdone : Completes p env (k.bufs i) devaddr devLen ↔
      ∃ l, readPages (gotPages env devaddr devLen).2 (nrDevPages devLen) = .addrs l ∧
        l.any (badOffset dev) = false ∧
        (env.insertPages (k.bufs i).cVaddr (hostPages p dev va devLen l)).1 = 0 := by
    constructor
    · rintro ⟨dev', va', l, h', hread, hbar, hins⟩
      obtain rfl : dev = dev' := Option.some.inj (h.hasDev.symm.trans h'.hasDev)
      obtain rfl : va = va' := Option.some.inj (h.hasVa.symm.trans h'.hasVa)
      exact ⟨l, hread, hbar, hins⟩
    · rintro ⟨l, hread, hbar, hins⟩
      exact ⟨dev, va, l, h, hread, hbar, hins⟩
  rw [hdone, fgdsMapDevAddrInner_reaches h]
  cases hread : readPages (gotPages env devaddr devLen).2 (nrDevPages devLen) with
  | oops =>
    rw [mapPages_oops hread]
    refine iff_of_false (fun hgood => ?_) (by rintro ⟨l, hl, _⟩; cases hl)
    obtain ⟨r, _, hr⟩ := (hgood.undone (by simp)).negative
    cases hr
  | missing =>
    rw [mapPages_missing hread]
    refine iff_of_false (fun hgood => ?_) (by rintro ⟨l, hl, _⟩; cases hl)
    -- a NULL entry needs a table, so `get_pages` returned 0
    have hzero : (gotPages env devaddr devLen).1 = 0 := by
      by_contra hne
      have hnone := henv.failed _ _ hne
      rw [gotPages, hnone] at hread
      exact readPages_none_ne_missing _ hread
    have hmapped := (hgood.zero_iff.mp (by simp [hzero])).1
    rw [mapOut_self, pinned_bufs, withRegion_self] at hmapped
    simp [hb.remap] at hmapped
  | addrs l =>
    by_cases hbar : l.any (badOffset dev) = true
    · rw [mapPages_outside hread hbar]
      refine iff_of_false (fun hgood => ?_) ?_
      · have hnull := (hgood.undone (by simp [eInval])).devPageAddrs
        rw [mapOut_self, setAddrs_self] at hnull
        cases hnull
      · rintro ⟨l', hl, hbar', _⟩
        cases hl
        rw [hbar] at hbar'
        cases hbar'
    by_cases hins : (env.insertPages ((withRegion k i).bufs i).cVaddr
        (hostPages p dev va devLen l)).1 ≠ 0
    · rw [mapPages_refused hread hbar hins]
      refine iff_of_false (fun hgood => ?_) ?_
      · have hnull := (hgood.undone (by simpa using hins)).devPageAddrs
        rw [mapOut_self, setAddrs_self] at hnull
        cases hnull
      · rintro ⟨l', hl, _, hins'⟩
        cases hl
        rw [hcv] at hins
        exact hins hins'
    · rw [mapPages_done hread hbar hins]
      have hzero := not_not.mp hins
      refine iff_of_true ⟨⟨fun _ => ⟨?_, ?_⟩, fun _ => rfl⟩, fun hne => absurd rfl hne⟩
        ⟨l, rfl, by simpa using hbar, hcv ▸ hzero⟩
      · rw [setRemap_self]
      · rw [henv.inserted _ _ hzero, List.take_length]
        exact hostPages_length p dev va (readPages_length hread)

end Main

/-- **Map or undo.** On a fresh buffer, for every length and every answer of the allocator,
the driver and the memory management: a MAP does what it should if and only if it stops
before `nvidia_p2p_get_pages`, or every page it asked for is there, inside the BAR and
inserted. -/
theorem maps_or_undoes_iff (p : Platform) {env : MapEnv} (henv : Contract env) {k : Kernel}
    {i : Nat} (hi : k.heap.kind i = some ⟨.mbuffer, i⟩) (hb : Unmapped (k.bufs i))
    (devaddr devLen : Nat) :
    MapsOrUndoes k i devLen (fgdsMapDevAddrInner p env k i devaddr devLen) ↔
      (∀ dev va, ¬ Reaches env (k.bufs i) devLen dev va) ∨
        Completes p env (k.bufs i) devaddr devLen := by
  by_cases h : ∀ dev va, ¬ Reaches env (k.bufs i) devLen dev va
  · exact iff_of_true (stops_undone hi hb h) (Or.inl h)
  · obtain ⟨dev, va, hreach⟩ : ∃ dev va, Reaches env (k.bufs i) devLen dev va := by
      simpa using h
    rw [reaches_iff henv hb hreach]
    exact ⟨Or.inr, fun hor => hor.resolve_left h⟩

/-- One mmap buffer of 128KB at 4GB. -/
def oneBuffer : Kernel :=
  (fgdsSetupMmapBuffer .loaded (some movedDev) true 4294967296 4295098368).2.2

theorem oneBuffer_unmapped : Unmapped (oneBuffer.bufs 0) := ⟨rfl, rfl, rfl, rfl⟩

theorem grantingEnv_contract : Contract grantingEnv := by
  refine ⟨fun va n hne => ?_, fun _ _ _ => rfl⟩
  simp only [grantingEnv] at hne ⊢
  split at hne
  · exact absurd rfl hne
  · rename_i hal
    rw [if_neg hal]

/-- A MAP of two GPU pages at 1MB. -/
theorem maps_or_undoes_granted :
    (fgdsMapDevAddrInner shiftedPlatform grantingEnv oneBuffer 0 1048576 131072).ret = some 0 ∧
      MapsOrUndoes oneBuffer 0 131072
        (fgdsMapDevAddrInner shiftedPlatform grantingEnv oneBuffer 0 1048576 131072) := by
  refine ⟨by decide +kernel, (maps_or_undoes_iff shiftedPlatform grantingEnv_contract rfl
    oneBuffer_unmapped 1048576 131072).mpr (Or.inr ?_)⟩
  refine ⟨movedDev, 274880004096 + 2 ^ 47, [bar64 16, bar64 17],
    ⟨⟨rfl, rfl, by decide, rfl, rfl⟩, rfl, rfl⟩, by decide +kernel, by decide +kernel, rfl⟩

/-- The driver pins the pages, but the table has a NULL entry. -/
def nullEntryEnv : MapEnv := { grantingEnv with getPages := fun _ _ => (0, some [none]) }

/-- The MAP returns 0, although nothing is mapped, and the page table is never put back. -/
theorem map_null_entry :
    Contract nullEntryEnv ∧ Unmapped (oneBuffer.bufs 0) ∧
      (fgdsMapDevAddrInner shiftedPlatform nullEntryEnv oneBuffer 0 1048576 65536).ret = some 0 ∧
      ¬ MapsOrUndoes oneBuffer 0 65536
        (fgdsMapDevAddrInner shiftedPlatform nullEntryEnv oneBuffer 0 1048576 65536) := by
  refine ⟨⟨fun _ _ hne => absurd rfl hne, fun _ _ _ => rfl⟩, oneBuffer_unmapped,
    by decide +kernel, fun hgood => ?_⟩
  have hmapped := (hgood.zero_iff.mp (by decide +kernel)).1
  exact absurd hmapped (by decide +kernel)

end Fgds.MapUndo
