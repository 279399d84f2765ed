import Fgds.Uring
import Fgds.XferSafety

/-!
# How the translation ends

`Fgds.Xfer` has the value of `fgds_do_xfer_addr`: a list, or NULL. The function returns NULL in six
places, one of them when `malloc` fails. This module tells them apart and shows which are reached
on a request that does not overflow, for the base of a region of a reachable list of disjoint
regions. The two last ones, which come after the allocation and do not free it, are not.

* `fgdsDoXferAddrExit_ok_iff`: the function with its exits has the list of `fgdsDoXferAddr`, where
  `malloc` grants it;
* `partition_of_tiles`: a tiling of the window with one entry for every segment is a `Partition`;
* `exit_outside`: a window that ends outside the region is refused before anything is allocated;
* `xfer_partition`: so the result is NULL exactly on those, and a `Partition` otherwise.
-/

namespace Fgds.XferPartition

open Fgds.Lib.CInt Fgds.Lib.Tiling Fgds.Device Fgds.Xfer Fgds.XferSafety Fgds.Regmem Fgds.Uring

/-! ## The exits -/

/-- The places where `fgds_do_xfer_addr` returns NULL, in their order. -/
inductive XferExit where
  | notFound -- "node is not found fail"
  | notMapped -- "node is not match or has not reg"
  | outOfRange0 -- "Read/Write out of range 0": the window and the length
  | mallocFail -- "addr malloc fail"
  | outOfRange1 -- "Write out of range 1": the segments and `mmap_count`
  | writeError -- "fgds_write error !": `nbyte_left` and `nr_xfer_addrs` after the loop
  deriving DecidableEq, Repr

/-- The bytes `malloc` is asked for: a `struct fgds_xfer_addr` has 24, with one entry, and every
further `struct xfer_addr` 16. -/
def xferAddrSize (count : Nat) : Nat := u64 (24 + u32 (count - 1) * 16)

section Function

variable (malloc : Nat → Bool)

/-- `fgds_do_xfer_addr` once the node is found. -/
def xferWindowExit (nd : MmapNode) (bufOffset : Int) (nbyte : Nat) :
    Except XferExit (List XferAddr) :=
  if ¬ nd.isMapped then .error .notMapped
  else if u64 (nbyte + bufOffset) > nd.length then .error .outOfRange0
  else
    let start := u32 (bufOffset.tdiv fgdsMmapSegmentSize)
    let last := u32 (u64 (bufOffset + nbyte - 1) / fgdsMmapSegmentSize : Nat)
    let count := u32 ((last : Int) - start + 1)
    if ¬ malloc (xferAddrSize count) then .error .mallocFail
    else if u32 (start + count) > nd.mmapCount ∨ last > nd.mmapCount ∨ count > nd.mmapCount then
      .error .outOfRange1
    else
      let (es, left) := xferLoop nd bufOffset nbyte start last count
        (List.range' start (last + 1 - start)) nbyte
      if left ≠ 0 ∨ es.length ≠ count then .error .writeError else .ok es

/-- `fgds_do_xfer_addr`. -/
def fgdsDoXferAddrExit (head : List MmapNode) (gpuBuf : Nat) (bufOffset : Int) (nbyte : Nat) :
    Except XferExit (List XferAddr) :=
  match findFgdsMmapNode head gpuBuf nbyte with
  | none => .error .notFound
  | some nd => xferWindowExit malloc nd bufOffset nbyte

variable {malloc}

/-- The list is the one of `xferWindow`, if `malloc` grants it. -/
theorem xferWindowExit_ok_iff {nd : MmapNode} {bufOffset : Int} {nbyte : Nat}
    {es : List XferAddr} :
    xferWindowExit malloc nd bufOffset nbyte = .ok es ↔
      xferWindow nd bufOffset nbyte = some es ∧ malloc (xferAddrSize es.length) = true := by
  unfold xferWindowExit xferWindow
  split
  · simp
  split
  · simp
  dsimp only
  generalize u32 (bufOffset.tdiv fgdsMmapSegmentSize) = start
  generalize u32 (u64 (bufOffset + nbyte - 1) / fgdsMmapSegmentSize : Nat) = last
  generalize u32 ((last : Int) - start + 1) = count
  generalize xferLoop nd bufOffset nbyte start last count _ nbyte = run
  obtain ⟨es', left⟩ := run
  by_cases hrange : u32 (start + count) > nd.mmapCount ∨ last > nd.mmapCount ∨ count > nd.mmapCount
  · rw [if_pos hrange, if_pos hrange]
    split <;> simp
  rw [if_neg hrange, if_neg hrange]
  dsimp only
  by_cases hend : left ≠ 0 ∨ es'.length ≠ count
  · rw [if_pos hend, if_pos hend]
    split <;> simp
  -- the size asked for is the size of the list
  have hlen : es'.length = count := not_not.mp (not_or.mp hend).2
  rw [if_neg hend, if_neg hend, ← hlen]
  constructor
  · intro h
    split at h
    · cases h
    · rename_i hgrant
      cases h
      exact ⟨rfl, not_not.mp hgrant⟩
  · rintro ⟨hes, hgrant⟩
    cases hes
    rw [if_neg (not_not.mpr hgrant)]

theorem fgdsDoXferAddrExit_ok_iff {head : List MmapNode} {gpuBuf : Nat} {bufOffset : Int}
    {nbyte : Nat} {es : List XferAddr} :
    fgdsDoXferAddrExit malloc head gpuBuf bufOffset nbyte = .ok es ↔
      fgdsDoXferAddr head gpuBuf bufOffset nbyte = some es ∧
        malloc (xferAddrSize es.length) = true := by
  unfold fgdsDoXferAddrExit fgdsDoXferAddr
  cases findFgdsMmapNode head gpuBuf nbyte with
  | none => simp
  | some nd => exact xferWindowExit_ok_iff

end Function

/-! ## Partitions of a window -/

/-- The number of segments that the window touches. -/
def touched (b n : Nat) : Nat :=
  (b + n - 1) / fgdsMmapSegmentSize - b / fgdsMmapSegmentSize + 1

/-- Where entry `i` starts, if the entries are laid end to end from offset `b` on. -/
def startOf (b : Nat) (es : List XferAddr) (i : Nat) : Nat :=
  b + ((es.take i).map XferAddr.nbyte).sum

/-- An exact ordered partition of the window `[b, b + n)` of the region: one entry for every
segment that the window touches, in order, each the host range of its part of the window. -/
structure Partition (nd : MmapNode) (b n : Nat) (es : List XferAddr) : Prop where
  count : es.length = touched b n
  nonempty : ∀ e ∈ es, 0 < e.nbyte
  short : ∀ e ∈ es, e.nbyte ≤ fgdsMmapSegmentSize
  inside : ∀ e ∈ es, InSegment nd e
  sum : (es.map XferAddr.nbyte).sum = n
  consecutive : ∀ i e, es[i]? = some e → XferAddr.At nd (startOf b es i) e
  segment : ∀ i < es.length, startOf b es i / fgdsMmapSegmentSize = b / fgdsMmapSegmentSize + i

theorem partition_of_tiles {nd : MmapNode} (hreg : nd.Registered) {b n : Nat} (hn : 0 < n)
    (hb : b + n ≤ nd.length) {es : List XferAddr}
    (ht : Tiles XferAddr.nbyte (XferAddr.At nd) b (b + n) es) (hcount : es.length = touched b n) :
    Partition nd b n es := by
  refine ⟨hcount, ?_, ?_, ?_, ?_, ?_, ?_⟩
  · intro e he
    obtain ⟨p, _, _, hpos, _⟩ := tiles_mem ht he
    exact hpos
  · intro e he
    obtain ⟨p, _, _, _, hat⟩ := tiles_mem ht he
    exact hat.nbyte_le
  · intro e he
    obtain ⟨p, _, hq, hpos, hat⟩ := tiles_mem ht he
    exact inSegment_of_at hreg hat hpos (Nat.le_trans hq hb)
  · exact Nat.add_left_cancel (tiles_sum ht)
  · intro i e he
    exact tiles_getElem? ht he
  · intro i hi
    refine tiles_cell (fun p e hat => hat.2) ht ?_ hi
    have hle : b / fgdsMmapSegmentSize ≤ (b + n - 1) / fgdsMmapSegmentSize :=
      Nat.div_le_div_right (by omega)
    rw [hcount, touched]
    omega

/-- A window of at most one segment length crosses at most one border. -/
theorem touched_le_two {b n : Nat} (hn : n ≤ fgdsMmapSegmentSize) : touched b n ≤ 2 := by
  unfold touched
  simp only [fgdsMmapSegmentSize] at *
  omega

/-! ## Requests that do not overflow -/

/-- `nd` is a region, not empty and below 256TB, of a list of disjoint regions that calls of
`fgds_regmem` linked. -/
structure Region (mb : MmapBuffer) (nd : MmapNode) : Prop where
  linked : FromRegmem mb.head
  gpuEnd : ∀ c ∈ mb.head, c.gpuAddr + c.length < 2 ^ 64
  gpuDisjoint : mb.head.Pairwise GpuDisjoint
  mem : nd ∈ mb.head
  pos : 0 < nd.length
  length : nd.length < 2 ^ 48

/-- A request of at least one byte for which the sums of the function are exact. The one that
`find_fgds_mmap_node` makes with the pointer may overflow if the pointer is a user address. -/
structure Request (nd : MmapNode) (b n : Nat) : Prop where
  pos : 1 ≤ n
  offset : b + n < 2 ^ 64
  pointer : nd.gpuAddr + n < 2 ^ 64 ∨ nd.gpuAddr < 2 ^ 63

section Requests

variable {mb : MmapBuffer} {nd : MmapNode} {b n : Nat} (hregion : Region mb nd)
include hregion

theorem Region.registered : nd.Registered := by
  have hcount : nd.mmapCount = mmapCountOf nd.length := by
    obtain ⟨os, mb', d, a, l, hl, _⟩ := hregion.linked nd hregion.mem
    rw [hl.length, hl.count]
  have hlength := hregion.length
  have hint : nd.mmapCount < 2 ^ 31 := by
    rw [hcount, mmapCountOf_eq]
    omega
  rcases hregion.linked.complete nd hregion.mem hint with hreg | ⟨hempty, _⟩
  · exact hreg
  · exact absurd hempty (Nat.ne_of_gt hregion.pos)

/-- Another region that starts at or below this one ends at or below its base. -/
theorem Region.below {c : MmapNode} (hc : c ∈ mb.head) (hne : c ≠ nd)
    (hle : c.gpuAddr ≤ nd.gpuAddr) : c.gpuAddr + c.length ≤ nd.gpuAddr := by
  have hpos := hregion.pos
  rcases hregion.gpuDisjoint.forall hc hregion.mem hne with hbelow | habove
  · exact hbelow
  · omega

/-- Whatever region the lookup selects, the window ends beyond it if it ends beyond this one. -/
theorem Region.selected_length (hreq : Request nd b n) (hout : nd.length < b + n) {c : MmapNode}
    (hc : findFgdsMmapNode mb.head nd.gpuAddr n = some c) : c.length < b + n := by
  have hmem := List.mem_of_find?_eq_some hc
  have hcovers : c.covers nd.gpuAddr n = true := by simpa using List.find?_some hc
  by_cases hne : c = nd
  · rw [hne]
    exact hout
  have hle : c.gpuAddr ≤ nd.gpuAddr := by
    simp only [MmapNode.covers, Bool.and_eq_true, decide_eq_true_eq] at hcovers
    exact hcovers.1
  have hbelow := hregion.below hmem hne hle
  have hpos := hreq.pos
  by_cases hsum : nd.gpuAddr + n < 2 ^ 64
  · -- the sum is exact: no other region contains the range
    have hin := (MmapNode.covers_iff (hregion.gpuEnd c hmem) hsum).mp hcovers
    omega
  · rcases hreq.pointer with hexact | huser
    · exact absurd hexact hsum
    · omega

/-- A window that ends outside the region is refused before anything is allocated. -/
theorem exit_outside (hreq : Request nd b n) (hout : nd.length < b + n) (malloc : Nat → Bool) :
    fgdsDoXferAddrExit malloc mb.head nd.gpuAddr b n = .error .notFound ∨
      fgdsDoXferAddrExit malloc mb.head nd.gpuAddr b n = .error .outOfRange0 := by
  unfold fgdsDoXferAddrExit
  cases hc : findFgdsMmapNode mb.head nd.gpuAddr n with
  | none => exact .inl rfl
  | some c =>
    have hmapped := hregion.linked.mapped c (List.mem_of_find?_eq_some hc)
    have hlength := hregion.selected_length hreq hout hc
    have hsum : u64 ((n : Int) + b) = b + n := u64_eq (by omega) hreq.offset
    right
    show xferWindowExit malloc c b n = _
    rw [xferWindowExit, if_neg (not_not.mpr hmapped), hsum, if_pos hlength]

/-- A window inside the region gets a list, if it can be allocated. -/
theorem exit_inside (hn : 1 ≤ n) (hin : b + n ≤ nd.length) {malloc : Nat → Bool}
    (hmalloc : malloc (xferAddrSize (touched b n)) = true) :
    ∃ es, fgdsDoXferAddrExit malloc mb.head nd.gpuAddr b n = .ok es ∧ Partition nd b n es := by
  have hreg := hregion.registered
  have hfind : findFgdsMmapNode mb.head nd.gpuAddr n = some nd :=
    find_of_disjoint hregion.gpuEnd hregion.gpuDisjoint hregion.mem hn (Nat.le_refl _) (by omega)
  obtain ⟨es, hes, ht, hcount⟩ := xferWindow_inside hreg hn hin
  rw [← fgdsDoXferAddr_some hfind] at hes
  refine ⟨es, fgdsDoXferAddrExit_ok_iff.mpr ⟨hes, ?_⟩, partition_of_tiles hreg hn hin ht hcount⟩
  rw [hcount]
  exact hmalloc

end Requests

/-- The result is NULL if and only if the window ends outside the region; otherwise it is an exact
ordered partition of the window, with at most two entries for a sub-I/O of the pipeline. The
checks after the allocation never fail. -/
theorem xfer_partition {malloc : Nat → Bool} {mb : MmapBuffer} {nd : MmapNode} {b n : Nat}
    (hregion : Region mb nd) (hreq : Request nd b n)
    (hmalloc : malloc (xferAddrSize (touched b n)) = true) :
    ((∃ es, fgdsDoXferAddrExit malloc mb.head nd.gpuAddr b n = .ok es) ↔ b + n ≤ nd.length) ∧
    (∀ es, fgdsDoXferAddrExit malloc mb.head nd.gpuAddr b n = .ok es →
      Partition nd b n es ∧ (n ≤ fgdsSubIoSize → es.length ≤ 2)) ∧
    fgdsDoXferAddrExit malloc mb.head nd.gpuAddr b n ≠ .error .outOfRange1 ∧
    fgdsDoXferAddrExit malloc mb.head nd.gpuAddr b n ≠ .error .writeError := by
  by_cases hin : b + n ≤ nd.length
  · obtain ⟨es, hes, hpart⟩ := exit_inside hregion hreq.pos hin hmalloc
    rw [hes]
    refine ⟨iff_of_true ⟨es, rfl⟩ hin, ?_, nofun, nofun⟩
    rintro es' ⟨⟩
    refine ⟨hpart, fun hsmall => ?_⟩
    rw [hpart.count]
    exact touched_le_two (Nat.le_trans hsmall (by decide))
  · rcases exit_outside hregion hreq (Nat.lt_of_not_le hin) malloc with hexit | hexit
    all_goals
      rw [hexit]
      exact ⟨iff_of_false nofun hin, nofun, nofun, nofun⟩

/-- A region of 2GB at 1GB, its two segments mapped from 4GB on. -/
def twoGb : MmapNode :=
  ⟨1, [4294967296, 5368709120], 2, 1073741824, 2147483648, 0, true⟩

theorem twoGb_region : ∃ mb, Region mb twoGb ∧ mb.head = [twoGb] := by
  let os := plainOs 1 4294967296
  have hreach := Reachable.regmem os 0 1073741824 2147483648 (.opened 0 3)
    (fun nd hnd => absurd hnd List.not_mem_nil) (fun nd hnd => absurd hnd List.not_mem_nil)
    (plainOs_mapsApart _ _ _ (by decide))
  have hhead : (fgdsRegmem os ⟨0, 3, true, []⟩ 0 1073741824 2147483648).buffer.head = [twoGb] := by
    decide +kernel
  refine ⟨_, ⟨hreach.fromRegmem, ?_, ?_, ?_, by decide, by decide⟩, hhead⟩
  · rw [hhead]
    decide
  · rw [hhead]
    exact List.pairwise_singleton _ _
  · rw [hhead]
    exact List.mem_singleton_self _

/-- 512MB from 768MB on, the example in the source: 256MB on both sides of the border. -/
theorem xfer_partition_border :
    ∃ mb es, Region mb twoGb ∧ Request twoGb 805306368 536870912 ∧
      fgdsDoXferAddrExit (fun _ => true) mb.head twoGb.gpuAddr 805306368 536870912 = .ok es ∧
      Partition twoGb 805306368 536870912 es ∧
      es = [⟨5100273664, 268435456⟩, ⟨5368709120, 268435456⟩] := by
  obtain ⟨mb, hregion, hhead⟩ := twoGb_region
  have hreq : Request twoGb 805306368 536870912 := ⟨by decide, by decide, .inr (by decide)⟩
  have hall := @xfer_partition (fun _ => true) mb twoGb 805306368 536870912 hregion hreq rfl
  obtain ⟨es, hes⟩ := hall.1.mpr (by decide)
  refine ⟨mb, es, hregion, hreq, hes, (hall.2.1 es hes).1, ?_⟩
  have hrun : fgdsDoXferAddrExit (fun _ => true) [twoGb] twoGb.gpuAddr 805306368 536870912 =
      .ok [⟨5100273664, 268435456⟩, ⟨5368709120, 268435456⟩] := by
    decide +kernel
  rw [hhead] at hes
  exact Except.ok.inj (hes.symm.trans hrun)

end Fgds.XferPartition
