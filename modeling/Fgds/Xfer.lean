import Fgds.Device
import Fgds.Lib.Tiling

/-!
# From a window of a region to host addresses

`fgds_do_xfer_addr` turns the window `[buf_offset, buf_offset + nbyte)` of a
registered region into a list of host ranges, one for every 1GB segment the window
touches. The model keeps the C conversions: `buf_offset` is signed, the sums are
unsigned 64-bit, the segment indices are truncated to 32 bits. Allocation succeeds.

* `xferWindow_inside`: on a window inside the selected region the result is an exact
  ordered partition of the window (`Tiles`);
* `byteAt_tiles`: so byte `k` of it is the host byte of offset `buf_offset + k`;
* `xferWindow_outside`: a window that ends outside it is refused.
-/

namespace Fgds.Xfer

open Fgds.Lib.CInt Fgds.Lib.Tiling Fgds.Device

/-- `struct xfer_addr`. -/
structure XferAddr where
  targetAddr : Nat
  nbyte : Nat
  deriving DecidableEq, Repr

/-! ## The translation -/

section Loop

variable (nd : MmapNode) (bufOffset : Int) (nbyte start last count : Nat)

/-- The entry the loop of `fgds_do_xfer_addr` writes for segment `i`. -/
def xferEntry (nbyteLeft i : Nat) : XferAddr :=
  if i = start then
    let offsetInPage := u64 (bufOffset.tmod fgdsMmapSegmentSize)
    { targetAddr := u64 (nd.vaddr i + offsetInPage)
      nbyte := if count > 1 then u64 (fgdsMmapSegmentSize - offsetInPage) else nbyteLeft }
  else if i = last then
    { targetAddr := nd.vaddr i
      nbyte := u64 (bufOffset + nbyte - 1) % fgdsMmapSegmentSize + 1 }
  else
    { targetAddr := nd.vaddr i, nbyte := fgdsMmapSegmentSize }

/-- The loop itself: the entries written, and what is left of `nbyte_left`. -/
def xferLoop : List Nat → Nat → List XferAddr × Nat
  | [], nbyteLeft => ([], nbyteLeft)
  | i :: is, nbyteLeft =>
    let e := xferEntry nd bufOffset nbyte start last count nbyteLeft i
    let (es, left) := xferLoop is (u64 (nbyteLeft - e.nbyte))
    (e :: es, left)

end Loop

/-- `fgds_do_xfer_addr` once the node is found; `none` is the NULL return. A loop
bound of `2 ^ 32 - 1` would not terminate in the source; it needs a node with that
many segments. -/
def xferWindow (nd : MmapNode) (bufOffset : Int) (nbyte : Nat) : Option (List XferAddr) :=
  if ¬ nd.isMapped then none
  else if u64 (nbyte + bufOffset) > nd.length then none
  else
    let start := u32 (bufOffset.tdiv fgdsMmapSegmentSize)
    let last := u32 (u64 (bufOffset + nbyte - 1) / fgdsMmapSegmentSize : Nat)
    let count := u32 ((last : Int) - start + 1)
    if u32 (start + count) > nd.mmapCount ∨ last > nd.mmapCount ∨ count > nd.mmapCount then
      none
    else
      let (es, left) := xferLoop nd bufOffset nbyte start last count
        (List.range' start (last + 1 - start)) nbyte
      if left ≠ 0 ∨ es.length ≠ count then none else some es

/-- `fgds_do_xfer_addr`. -/
def fgdsDoXferAddr (head : List MmapNode) (gpuBuf : Nat) (bufOffset : Int) (nbyte : Nat) :
    Option (List XferAddr) :=
  match findFgdsMmapNode head gpuBuf nbyte with
  | none => none
  | some nd => xferWindow nd bufOffset nbyte

theorem fgdsDoXferAddr_some {head : List MmapNode} {gpuBuf nbyte : Nat} {nd : MmapNode}
    (hf : findFgdsMmapNode head gpuBuf nbyte = some nd) (bufOffset : Int) :
    fgdsDoXferAddr head gpuBuf bufOffset nbyte = xferWindow nd bufOffset nbyte := by
  simp [fgdsDoXferAddr, hf]

theorem fgdsDoXferAddr_none {head : List MmapNode} {gpuBuf nbyte : Nat}
    (hf : findFgdsMmapNode head gpuBuf nbyte = none) (bufOffset : Int) :
    fgdsDoXferAddr head gpuBuf bufOffset nbyte = none := by
  simp [fgdsDoXferAddr, hf]

/-! ## Windows inside the region -/

/-- Entry `e` is the host range of the bytes from offset `p` of the region on, and
stays in the segment of `p`. -/
def XferAddr.At (nd : MmapNode) (p : Nat) (e : XferAddr) : Prop :=
  e.targetAddr = nd.hostAddr p ∧
    (p + e.nbyte - 1) / fgdsMmapSegmentSize = p / fgdsMmapSegmentSize

theorem XferAddr.At.nbyte_le {nd : MmapNode} {p : Nat} {e : XferAddr} (h : e.At nd p) :
    e.nbyte ≤ fgdsMmapSegmentSize := by
  have hseg := h.2
  simp only [fgdsMmapSegmentSize] at hseg ⊢
  omega

/-- The host address of byte `k` of a segment list. -/
def byteAt : List XferAddr → Nat → Option Nat
  | [], _ => none
  | e :: es, k => if k < e.nbyte then some (e.targetAddr + k) else byteAt es (k - e.nbyte)

variable {nd : MmapNode} {b n : Nat}

theorem byteAt_tiles {p q k : Nat} {es : List XferAddr}
    (ht : Tiles XferAddr.nbyte (XferAddr.At nd) p q es) (hk : p + k < q) :
    byteAt es k = some (nd.hostAddr (p + k)) := by
  induction es generalizing p k with
  | nil =>
    rw [tiles_nil] at ht
    omega
  | cons e es ih =>
    obtain ⟨_, hat, hrest⟩ := ht
    unfold byteAt
    split
    · rename_i hlt
      rw [hat.1, nd.hostAddr_add hlt hat.2]
    · rw [ih hrest (by omega)]
      congr 2
      omega

/-- The loop after its first round: whole segments, then the rest of a window that
ends at offset `w` (after wrap-around, if the sum wrapped). By induction on the
number of rounds left. -/
theorem xferLoop_tail (nd : MmapNode) (bufOffset : Int) (nbyte start count w m i left : Nat)
    (hi : start < i) (hw : u64 (bufOffset + nbyte - 1) = w - 1) (hpos : 0 < w)
    (hlast : i + m = (w - 1) / fgdsMmapSegmentSize) :
    ∃ es, xferLoop nd bufOffset nbyte start ((w - 1) / fgdsMmapSegmentSize) count
        (List.range' i (m + 1)) left = (es, u64 (left - (w - i * fgdsMmapSegmentSize))) ∧
      Tiles XferAddr.nbyte (XferAddr.At nd) (i * fgdsMmapSegmentSize) w es ∧
      es.length = m + 1 := by
  induction m generalizing i left with
  | zero =>
    refine ⟨[⟨nd.vaddr i, w - i * fgdsMmapSegmentSize⟩], ?_, ?_, rfl⟩
    · have he : xferEntry nd bufOffset nbyte start ((w - 1) / fgdsMmapSegmentSize) count left i =
          ⟨nd.vaddr i, w - i * fgdsMmapSegmentSize⟩ := by
        rw [xferEntry, if_neg (by omega), if_pos (by omega), hw]
        simp only [fgdsMmapSegmentSize, XferAddr.mk.injEq, true_and] at *
        omega
      simp only [Nat.zero_add, List.range'_one, xferLoop, he, Prod.mk.injEq, true_and]
      congr 1
      simp only [fgdsMmapSegmentSize] at *
      omega
    · simp only [tiles_cons, tiles_nil, XferAddr.At, MmapNode.hostAddr, fgdsMmapSegmentSize] at *
      refine ⟨by omega, ⟨?_, by omega⟩, by omega⟩
      rw [show i * (1024 * 1024 * 1024) / (1024 * 1024 * 1024) = i by omega]
      omega
  | succ m ih =>
    obtain ⟨es, hes, ht, hl⟩ := ih (i + 1) (u64 (left - (fgdsMmapSegmentSize : Nat)))
      (by omega) (by omega)
    refine ⟨⟨nd.vaddr i, fgdsMmapSegmentSize⟩ :: es, ?_, ?_, by simp [hl]⟩
    · have he : xferEntry nd bufOffset nbyte start ((w - 1) / fgdsMmapSegmentSize) count left i =
          ⟨nd.vaddr i, fgdsMmapSegmentSize⟩ := by
        rw [xferEntry, if_neg (by omega), if_neg (by omega)]
      rw [List.range'_succ, xferLoop, he, hes, u64_u64_sub]
      simp only [Prod.mk.injEq, true_and]
      congr 1
      push_cast
      ring
    · refine ⟨by simp [fgdsMmapSegmentSize], ?_, ?_⟩
      · simp only [XferAddr.At, MmapNode.hostAddr, fgdsMmapSegmentSize]
        rw [show i * (1024 * 1024 * 1024) / (1024 * 1024 * 1024) = i by omega]
        omega
      · rw [show i * fgdsMmapSegmentSize + fgdsMmapSegmentSize = (i + 1) * fgdsMmapSegmentSize by
          ring]
        exact ht

/-- The first entry starts at the host address of the offset; it takes the whole length, or the
rest of the segment if others follow. -/
theorem xferEntry_first (hreg : nd.Registered) (hb : b < nd.length) (last count left : Nat) :
    xferEntry nd b n (b / fgdsMmapSegmentSize) last count left (b / fgdsMmapSegmentSize) =
      ⟨nd.hostAddr b,
        if count > 1 then fgdsMmapSegmentSize - b % fgdsMmapSegmentSize else left⟩ := by
  have hoff := hreg.segOffset hb
  have hend := hreg.hostEnd _ (hreg.segIndex hb)
  have hmod : u64 ((b : Int).tmod fgdsMmapSegmentSize) = b % fgdsMmapSegmentSize :=
    u64_tmod (by decide) (by decide)
  have hta : u64 (nd.vaddr (b / fgdsMmapSegmentSize) + (b % fgdsMmapSegmentSize : Nat)) =
      nd.hostAddr b := u64_eq (by simp [MmapNode.hostAddr]) (by simp [MmapNode.hostAddr]; omega)
  have hrest : u64 ((fgdsMmapSegmentSize : Int) - (b % fgdsMmapSegmentSize : Nat)) =
      fgdsMmapSegmentSize - b % fgdsMmapSegmentSize := by
    apply u64_eq
    · simp only [fgdsMmapSegmentSize]; omega
    · simp only [fgdsMmapSegmentSize]; omega
  simp only [xferEntry, ↓reduceIte, hmod, hta, hrest]

/-- The whole loop on a window inside the region. -/
theorem xferLoop_window (hreg : nd.Registered) (hn : 0 < n) (hb : b + n ≤ nd.length)
    (count : Nat) (hc : count = (b + n - 1) / fgdsMmapSegmentSize - b / fgdsMmapSegmentSize + 1) :
    ∃ es, xferLoop nd b n (b / fgdsMmapSegmentSize) ((b + n - 1) / fgdsMmapSegmentSize) count
        (List.range' (b / fgdsMmapSegmentSize) count) n = (es, 0) ∧
      Tiles XferAddr.nbyte (XferAddr.At nd) b (b + n) es ∧ es.length = count := by
  have hlen := hreg.length_lt
  have hfirst := xferEntry_first (n := n) hreg (by omega : b < nd.length)
    ((b + n - 1) / fgdsMmapSegmentSize) count n
  have hle : b / fgdsMmapSegmentSize ≤ (b + n - 1) / fgdsMmapSegmentSize :=
    Nat.div_le_div_right (by omega)
  by_cases h1 : count = 1
  · -- one segment: the single entry takes all of the window
    subst h1
    rw [if_neg (by omega)] at hfirst
    refine ⟨[⟨nd.hostAddr b, n⟩], ?_, ?_, rfl⟩
    · have hz : u64 ((n : Int) - n) = 0 := u64_eq (by omega) (by omega)
      simp only [List.range'_one, xferLoop, hfirst, hz]
    · have hs : (b + n - 1) / fgdsMmapSegmentSize = b / fgdsMmapSegmentSize := by omega
      exact ⟨hn, ⟨rfl, hs⟩, rfl⟩
  · -- several: up to the segment border, then `xferLoop_tail`
    rw [if_pos (by omega)] at hfirst
    obtain ⟨es, hes, ht, hl⟩ := xferLoop_tail nd b n (b / fgdsMmapSegmentSize) count
      (b + n) (count - 2) (b / fgdsMmapSegmentSize + 1)
      (b + n - (b / fgdsMmapSegmentSize + 1) * fgdsMmapSegmentSize) (by omega)
      (u64_eq (by omega) (by omega)) (by omega) (by omega)
    have hborder : b + (fgdsMmapSegmentSize - b % fgdsMmapSegmentSize) =
        (b / fgdsMmapSegmentSize + 1) * fgdsMmapSegmentSize := by
      simp only [fgdsMmapSegmentSize]; omega
    have hinside : (b / fgdsMmapSegmentSize + 1) * fgdsMmapSegmentSize < b + n := by
      simp only [fgdsMmapSegmentSize] at *
      omega
    refine ⟨⟨nd.hostAddr b, fgdsMmapSegmentSize - b % fgdsMmapSegmentSize⟩ :: es, ?_, ?_, ?_⟩
    · have hleft : u64 ((n : Int) - (fgdsMmapSegmentSize - b % fgdsMmapSegmentSize : Nat)) =
          b + n - (b / fgdsMmapSegmentSize + 1) * fgdsMmapSegmentSize :=
        u64_eq (by omega) (by omega)
      rw [show count = count - 2 + 1 + 1 by omega, List.range'_succ, xferLoop,
        show count - 2 + 1 + 1 = count by omega, hfirst, hleft, hes]
      simp only [Prod.mk.injEq, true_and]
      apply u64_eq
      · simp only [fgdsMmapSegmentSize] at *
        omega
      · omega
    · refine ⟨?_, ⟨rfl, ?_⟩, ?_⟩
      · simp only [fgdsMmapSegmentSize]; omega
      · simp only [fgdsMmapSegmentSize]; omega
      · rw [hborder]; exact ht
    · simp only [List.length_cons, hl]; omega

/-- A window inside the region is cut into an exact ordered partition, one entry for
every segment it touches. -/
theorem xferWindow_inside (hreg : nd.Registered) (hn : 0 < n) (hb : b + n ≤ nd.length) :
    ∃ es, xferWindow nd b n = some es ∧
      Tiles XferAddr.nbyte (XferAddr.At nd) b (b + n) es ∧
      es.length = (b + n - 1) / fgdsMmapSegmentSize - b / fgdsMmapSegmentSize + 1 := by
  have hlen := hreg.length_lt
  have hidx := hreg.segIndex (o := b + n - 1) (by omega)
  have hint := hreg.countInt
  obtain ⟨es, hes, ht, hl⟩ := xferLoop_window hreg hn hb _ rfl
  refine ⟨es, ?_, ht, hl⟩
  have hsum : u64 ((n : Int) + b) = b + n := u64_eq (by omega) (by omega)
  have hstart : u32 ((b : Int).tdiv fgdsMmapSegmentSize) = b / fgdsMmapSegmentSize := by
    apply u32_tdiv
    simp only [fgdsMmapSegmentSize]
    omega
  have hw : u64 ((b : Int) + n - 1) = b + n - 1 := u64_eq (by omega) (by omega)
  have hlast : u32 ((b + n - 1) / fgdsMmapSegmentSize : Nat) =
      (b + n - 1) / fgdsMmapSegmentSize := u32_eq rfl (by omega)
  have hle : b / fgdsMmapSegmentSize ≤ (b + n - 1) / fgdsMmapSegmentSize :=
    Nat.div_le_div_right (by omega)
  have hcount : u32 (((b + n - 1) / fgdsMmapSegmentSize : Nat) -
      (b / fgdsMmapSegmentSize : Nat) + 1) =
      (b + n - 1) / fgdsMmapSegmentSize - b / fgdsMmapSegmentSize + 1 :=
    u32_eq (by omega) (by omega)
  have hsc : u32 ((b / fgdsMmapSegmentSize : Nat) +
      ((b + n - 1) / fgdsMmapSegmentSize - b / fgdsMmapSegmentSize + 1 : Nat)) =
      (b + n - 1) / fgdsMmapSegmentSize + 1 := u32_eq (by omega) (by omega)
  have hr : (b + n - 1) / fgdsMmapSegmentSize + 1 - b / fgdsMmapSegmentSize =
      (b + n - 1) / fgdsMmapSegmentSize - b / fgdsMmapSegmentSize + 1 := by omega
  simp only [xferWindow, hreg.mapped, not_true_eq_false, ↓reduceIte, hsum, hw, hstart, hlast,
    hcount, hsc, hr, hes, hl]
  rw [if_neg (by omega), if_neg (by omega), if_neg (by simp)]

/-- A window that ends beyond the region is refused. -/
theorem xferWindow_outside {bufOffset : Int} (hu : u64 (n + bufOffset) > nd.length) :
    xferWindow nd bufOffset n = none := by
  simp only [xferWindow, if_pos hu, ite_self]

/-- So a window that is accepted, without wrap-around, lies inside the region. -/
theorem xferWindow_accepted (hreg : nd.Registered) (hn : 0 < n) (hb : b + n < 2 ^ 64)
    {es : List XferAddr} (h : xferWindow nd b n = some es) :
    b + n ≤ nd.length ∧ Tiles XferAddr.nbyte (XferAddr.At nd) b (b + n) es := by
  by_cases hin : b + n ≤ nd.length
  · obtain ⟨es', hes, ht, _⟩ := xferWindow_inside hreg hn hin
    rw [hes, Option.some.injEq] at h
    exact ⟨hin, h ▸ ht⟩
  · have hsum : u64 ((n : Int) + b) = b + n := u64_eq (by omega) hb
    rw [xferWindow_outside (by omega)] at h
    cases h

end Fgds.Xfer
