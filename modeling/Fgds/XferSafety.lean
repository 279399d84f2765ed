import Fgds.Regmem
import Fgds.Xfer

/-!
# Which requests address bytes outside the registration

The bound check of `fgds_do_xfer_addr` adds a signed offset to an unsigned length
modulo `2 ^ 64`, so a negative offset or a huge length can pass it. This module
follows every such request through the rest of the function.

* `Reachable`: the lists that `fgds_regmem` and `fgds_deregmem` make, with the nodes freed;
* `xfer_safe_iff`: the entries returned lie inside one mmap segment each of a node that is not
  freed (`XferSafe`), if and only if the request is not one of the wrapped windows of
  `WrapAccepted`, as long as no freed node was left in the list.
-/

namespace Fgds.XferSafety

open Fgds.Lib.CInt Fgds.Lib.Tiling Fgds.Device Fgds.Xfer Fgds.Regmem

/-- The byte range of an entry does not wrap and lies inside one mmap segment. -/
def InSegment (nd : MmapNode) (e : XferAddr) : Prop :=
  e.targetAddr + e.nbyte ≤ 2 ^ 64 ∧
    ∃ i < nd.mmapCount, nd.vaddr i ≤ e.targetAddr ∧
      e.targetAddr + e.nbyte ≤ nd.vaddr i + nd.segLen i

/-- If the function returns a list, every entry of it lies inside a segment of the node that the
lookup selected, and that node has not been unmapped and freed; `freed` are the addresses of those
that have. -/
def XferSafe (head : List MmapNode) (freed : List Nat) (gpuBuf : Nat) (bufOffset : Int)
    (nbyte : Nat) : Prop :=
  ∀ es, fgdsDoXferAddr head gpuBuf bufOffset nbyte = some es →
    ∃ nd, findFgdsMmapNode head gpuBuf nbyte = some nd ∧ nd.self ∉ freed ∧
      ∀ e ∈ es, InSegment nd e

/-- A wrapped window that the function lets through: the offset is negative or the
end exceeds 64 bits, the wrapped end lies in the region, and either the offset is
less than one segment below zero or the window seems to start in its last segment. -/
def WrapAccepted (nd : MmapNode) (bufOffset : Int) (nbyte : Nat) : Prop :=
  (bufOffset < 0 ∨ 2 ^ 64 ≤ bufOffset + nbyte) ∧
  0 < u64 (nbyte + bufOffset) ∧ u64 (nbyte + bufOffset) ≤ nd.length ∧
  ((-(fgdsMmapSegmentSize : Int) < bufOffset ∧ bufOffset < 0) ∨
    u32 (bufOffset.tdiv fgdsMmapSegmentSize) =
      (u64 (nbyte + bufOffset) - 1) / fgdsMmapSegmentSize)

instance (nd : MmapNode) (e : XferAddr) : Decidable (InSegment nd e) :=
  inferInstanceAs (Decidable (_ ∧ _))

instance (nd : MmapNode) (bufOffset : Int) (nbyte : Nat) :
    Decidable (WrapAccepted nd bufOffset nbyte) :=
  inferInstanceAs (Decidable (_ ∧ _))

/-! ## The function on a window with a wrapped end -/

section Wrapped

variable {nd : MmapNode} {bufOffset : Int} {nbyte w : Nat}

/-- What is left of the function once the end `w` passed the first check. -/
theorem xferWindow_eq (hreg : nd.Registered) (hw : u64 (nbyte + bufOffset) = w) (hpos : 0 < w)
    (hle : w ≤ nd.length) (start count : Nat)
    (hs : u32 (bufOffset.tdiv fgdsMmapSegmentSize) = start)
    (hc : u32 (((w - 1) / fgdsMmapSegmentSize : Nat) - (start : Int) + 1) = count) :
    xferWindow nd bufOffset nbyte =
      if u32 (start + count) > nd.mmapCount ∨
          (w - 1) / fgdsMmapSegmentSize > nd.mmapCount ∨ count > nd.mmapCount then none
      else
        let (es, left) := xferLoop nd bufOffset nbyte start ((w - 1) / fgdsMmapSegmentSize) count
          (List.range' start ((w - 1) / fgdsMmapSegmentSize + 1 - start)) nbyte
        if left ≠ 0 ∨ es.length ≠ count then none else some es := by
  have hidx := hreg.segIndex (o := w - 1) (by omega)
  have hint := hreg.countInt
  have hend : u64 (bufOffset + nbyte - 1) = w - 1 := by
    unfold u64 at *; omega
  have hlast : u32 ((w - 1) / fgdsMmapSegmentSize : Nat) = (w - 1) / fgdsMmapSegmentSize :=
    u32_eq rfl (by omega)
  have hmap := hreg.mapped
  rw [xferWindow, if_neg (by simp [hmap]), hw, if_neg (by omega)]
  simp only [hend, hs, hlast, hc]

/-- One segment: the entry takes the whole length, whatever it is. -/
theorem xferWindow_single (hreg : nd.Registered) (hw : u64 (nbyte + bufOffset) = w)
    (hpos : 0 < w) (hle : w ≤ nd.length)
    (hs : u32 (bufOffset.tdiv fgdsMmapSegmentSize) = (w - 1) / fgdsMmapSegmentSize) :
    xferWindow nd bufOffset nbyte =
      some [⟨u64 (nd.vaddr ((w - 1) / fgdsMmapSegmentSize) +
        u64 (bufOffset.tmod fgdsMmapSegmentSize)), nbyte⟩] := by
  have hidx := hreg.segIndex (o := w - 1) (by omega)
  have hint := hreg.countInt
  have hz : u64 ((nbyte : Int) - nbyte) = 0 := u64_eq (by omega) (by omega)
  rw [xferWindow_eq hreg hw hpos hle _ 1 hs (u32_eq (by omega) (by omega)),
    u32_eq (n := (w - 1) / fgdsMmapSegmentSize + 1) (by push_cast; rfl) (by omega),
    if_neg (by omega), Nat.add_sub_cancel_left]
  simp only [List.range'_one, xferLoop, xferEntry, ↓reduceIte, gt_iff_lt, Nat.lt_irrefl, hz,
    List.length_singleton, ne_eq, not_true_eq_false, or_self]

/-- Several segments: the lengths add up modulo `2 ^ 64` exactly when the 32-bit
start index lost nothing. -/
theorem xferWindow_several (hreg : nd.Registered) (hw : u64 (nbyte + bufOffset) = w)
    (hpos : 0 < w) (hle : w ≤ nd.length) (start : Nat)
    (hs : u32 (bufOffset.tdiv fgdsMmapSegmentSize) = start)
    (hlt : start < (w - 1) / fgdsMmapSegmentSize) :
    ∃ es, xferWindow nd bufOffset nbyte =
      if u64 (fgdsMmapSegmentSize * (start - bufOffset.tdiv fgdsMmapSegmentSize)) ≠ 0 then none
      else some (⟨u64 (nd.vaddr start + u64 (bufOffset.tmod fgdsMmapSegmentSize)),
        u64 (fgdsMmapSegmentSize - u64 (bufOffset.tmod fgdsMmapSegmentSize))⟩ :: es) := by
  have hidx := hreg.segIndex (o := w - 1) (by omega)
  have hint := hreg.countInt
  have hend : u64 (bufOffset + nbyte - 1) = w - 1 := by
    unfold u64 at *; omega
  obtain ⟨es, hes, _, hl⟩ := xferLoop_tail nd bufOffset nbyte start
    ((w - 1) / fgdsMmapSegmentSize - start + 1) w
    ((w - 1) / fgdsMmapSegmentSize - start - 1) (start + 1)
    (u64 (nbyte - u64 (fgdsMmapSegmentSize - u64 (bufOffset.tmod fgdsMmapSegmentSize))))
    (by omega) hend hpos (by omega)
  refine ⟨es, ?_⟩
  rw [xferWindow_eq hreg hw hpos hle start ((w - 1) / fgdsMmapSegmentSize - start + 1) hs
      (u32_eq (by omega) (by omega)),
    u32_eq (n := (w - 1) / fgdsMmapSegmentSize + 1) (by omega) (by omega), if_neg (by omega),
    show (w - 1) / fgdsMmapSegmentSize + 1 - start =
      (w - 1) / fgdsMmapSegmentSize - start - 1 + 1 + 1 by omega, List.range'_succ]
  have hfirst : xferEntry nd bufOffset nbyte start ((w - 1) / fgdsMmapSegmentSize)
      ((w - 1) / fgdsMmapSegmentSize - start + 1) nbyte start =
      ⟨u64 (nd.vaddr start + u64 (bufOffset.tmod fgdsMmapSegmentSize)),
        u64 (fgdsMmapSegmentSize - u64 (bufOffset.tmod fgdsMmapSegmentSize))⟩ := by
    simp only [xferEntry, ↓reduceIte]
    rw [if_pos (by omega)]
  have hleft : u64 (u64 (nbyte - u64 (fgdsMmapSegmentSize -
      u64 (bufOffset.tmod fgdsMmapSegmentSize))) - (w - (start + 1 : Nat) * fgdsMmapSegmentSize)) =
      u64 (fgdsMmapSegmentSize * (start - bufOffset.tdiv fgdsMmapSegmentSize)) := by
    have hdm := (tdiv_tmod (d := fgdsMmapSegmentSize) (by decide) bufOffset).1
    obtain ⟨k, hk⟩ := u64_spec (bufOffset.tmod fgdsMmapSegmentSize)
    obtain ⟨k', hk'⟩ := u64_spec (fgdsMmapSegmentSize - u64 (bufOffset.tmod fgdsMmapSegmentSize))
    obtain ⟨k'', hk''⟩ := u64_spec (nbyte + bufOffset)
    rw [u64_u64_sub]
    apply u64_congr (k - k' - k'')
    rw [hw] at hk''
    push_cast
    linear_combination hdm + hk - hk' - hk''
  have hlen : (w - 1) / fgdsMmapSegmentSize - start - 1 + 1 + 1 =
      (w - 1) / fgdsMmapSegmentSize - start + 1 := by omega
  simp only [xferLoop, hfirst, hes, hleft, List.length_cons, hl, hlen, ne_eq, not_true_eq_false,
    or_false]

/-- The window seems to end before it starts: no round of the loop runs. -/
theorem xferWindow_backwards (hreg : nd.Registered) (hw : u64 (nbyte + bufOffset) = w)
    (hpos : 0 < w) (hle : w ≤ nd.length) (hn : 0 < nbyte)
    (hlt : (w - 1) / fgdsMmapSegmentSize < u32 (bufOffset.tdiv fgdsMmapSegmentSize)) :
    xferWindow nd bufOffset nbyte = none := by
  have hr : (w - 1) / fgdsMmapSegmentSize + 1 - u32 (bufOffset.tdiv fgdsMmapSegmentSize) = 0 := by
    omega
  rw [xferWindow_eq hreg hw hpos hle _ _ rfl rfl, hr]
  have hn' : nbyte ≠ 0 := by omega
  simp only [List.range'_zero, xferLoop, ne_eq, hn', not_false_eq_true, true_or, ↓reduceIte,
    ite_self]

/-- A window with wrapped end 0 has the segment index `2 ^ 32 - 1` as its last. -/
theorem xferWindow_zero (hreg : nd.Registered) (hw : u64 (nbyte + bufOffset) = 0) :
    xferWindow nd bufOffset nbyte = none := by
  have hint := hreg.countInt
  have hend : u64 (bufOffset + nbyte - 1) = 2 ^ 64 - 1 := by
    unfold u64 at *; omega
  have hlast : u32 ((2 ^ 64 - 1) / fgdsMmapSegmentSize : Nat) = 2 ^ 32 - 1 := by decide
  have hmap := hreg.mapped
  rw [xferWindow, if_neg (by simp [hmap]), hw, if_neg (by omega)]
  simp only [hend, hlast]
  rw [if_pos (by omega)]

end Wrapped

/-! ## The two directions -/

section Directions

variable {nd : MmapNode} {bufOffset : Int} {nbyte : Nat}

theorem segLen_le (hreg : nd.Registered) (i : Nat) : nd.segLen i ≤ fgdsMmapSegmentSize := by
  have hl := hreg.left
  unfold MmapNode.segLen
  split <;> simp only [fgdsMmapSegmentSize] at * <;> omega

/-- An entry longer than a segment lies in none. -/
theorem not_inSegment_of_long (hreg : nd.Registered) {e : XferAddr}
    (h : fgdsMmapSegmentSize < e.nbyte) : ¬ InSegment nd e := by
  rintro ⟨_, i, _, hlo, hhi⟩
  have := segLen_le hreg i
  omega

/-- A range that starts below a segment and reaches into it lies in no segment of the
node: the one it would have to lie in contains the segment's first byte. -/
theorem not_inSegment_of_below (hreg : nd.Registered) {e : XferAddr} {i : Nat}
    (hi : i < nd.mmapCount) (hlo : e.targetAddr < nd.vaddr i)
    (hhi : nd.vaddr i < e.targetAddr + e.nbyte) : ¬ InSegment nd e := by
  rintro ⟨_, j, hj, hjlo, hjhi⟩
  by_cases hij : i = j
  · subst hij; omega
  · have hd := hreg.hostDisjoint i hi j hj hij
    simp only [SegDisjoint] at hd
    omega

/-- An entry of an exact partition lies in the segment it was cut from. -/
theorem inSegment_of_at (hreg : nd.Registered) {p : Nat} {e : XferAddr} (hat : e.At nd p)
    (hpos : 0 < e.nbyte) (hend : p + e.nbyte ≤ nd.length) : InSegment nd e := by
  obtain ⟨ht, hs⟩ := hat
  have hidx := hreg.segIndex (o := p) (by omega)
  have hoff := hreg.segOffset (o := p + e.nbyte - 1) (by omega)
  have hhost := hreg.hostEnd _ hidx
  rw [hs] at hoff
  have hle : e.targetAddr + e.nbyte ≤ nd.vaddr (p / fgdsMmapSegmentSize) +
      nd.segLen (p / fgdsMmapSegmentSize) := by
    rw [ht, MmapNode.hostAddr]
    simp only [fgdsMmapSegmentSize] at *
    omega
  refine ⟨by omega, _, hidx, ?_, hle⟩
  rw [ht, MmapNode.hostAddr]
  omega

/-- Less than one segment below zero the quotient is 0 and the remainder the offset. -/
theorem below_zero (hneg : -(fgdsMmapSegmentSize : Int) < bufOffset ∧ bufOffset < 0) :
    bufOffset.tdiv fgdsMmapSegmentSize = 0 ∧ bufOffset.tmod fgdsMmapSegmentSize = bufOffset := by
  obtain ⟨hdm, _, hr⟩ := tdiv_tmod (d := fgdsMmapSegmentSize) (by decide) bufOffset
  have hr := hr hneg.2
  simp only [fgdsMmapSegmentSize] at *
  omega

/-- Every wrapped window of `WrapAccepted` gets an entry outside the segments. -/
theorem xferWindow_bad (hreg : nd.Registered) (hlo : -2 ^ 63 ≤ bufOffset)
    (hhi : bufOffset < 2 ^ 63) (hn : nbyte < 2 ^ 64) (h : WrapAccepted nd bufOffset nbyte) :
    ∃ es, xferWindow nd bufOffset nbyte = some es ∧ ∃ e ∈ es, ¬ InSegment nd e := by
  obtain ⟨hwrap, hpos, hle, hstart⟩ := h
  have hlen := hreg.length_lt
  have hdm := tdiv_tmod (d := fgdsMmapSegmentSize) (by decide) bufOffset
  by_cases hs : u32 (bufOffset.tdiv fgdsMmapSegmentSize) =
      (u64 (nbyte + bufOffset) - 1) / fgdsMmapSegmentSize
  · refine ⟨_, xferWindow_single hreg rfl hpos hle hs, _, List.mem_singleton_self _, ?_⟩
    by_cases hneg : -(fgdsMmapSegmentSize : Int) < bufOffset ∧ bufOffset < 0
    · -- the entry starts below segment 0, or below address 0 and then wraps
      obtain ⟨hq, hr⟩ := below_zero hneg
      have hlast : (u64 (nbyte + bufOffset) - 1) / fgdsMmapSegmentSize = 0 := by
        rw [← hs, hq]; rfl
      have hidx := hreg.segIndex (o := 0) hreg.pos
      have hend := hreg.hostEnd 0 (by simpa using hidx)
      rw [hlast, hr]
      by_cases hv : 0 ≤ nd.vaddr 0 + bufOffset
      · have ht : u64 (nd.vaddr 0 + u64 bufOffset) = (nd.vaddr 0 + bufOffset).toNat := by
          unfold u64; omega
        apply not_inSegment_of_below hreg (i := 0) (by simpa using hidx)
        · simp only [ht]; omega
        · rw [ht]; simp only [u64] at *; omega
      · rintro ⟨hover, _⟩
        simp only [u64] at *
        omega
    · apply not_inSegment_of_long hreg
      simp only [u64, fgdsMmapSegmentSize] at *
      omega
  · have hneg : -(fgdsMmapSegmentSize : Int) < bufOffset ∧ bufOffset < 0 := by
      rcases hstart with h | h
      · exact h
      · exact absurd h hs
    obtain ⟨hq, hr⟩ := below_zero hneg
    rw [hq] at hs
    have hlt : 0 < (u64 (nbyte + bufOffset) - 1) / fgdsMmapSegmentSize :=
      Nat.pos_of_ne_zero fun h0 => hs (by rw [h0]; rfl)
    obtain ⟨es, hes⟩ := xferWindow_several hreg rfl hpos hle 0 (by rw [hq]; rfl) hlt
    rw [hq, hr] at hes
    refine ⟨_, hes, _, List.mem_cons_self, ?_⟩
    apply not_inSegment_of_long hreg
    simp only [u64, fgdsMmapSegmentSize] at *
    omega

/-- A request for no byte gets no entry, or an empty one in the segment of its offset. -/
theorem xferWindow_nothing (hreg : nd.Registered) {b : Nat} (hle : b + nbyte ≤ nd.length)
    (hn : nbyte = 0) {es : List XferAddr} (hes : xferWindow nd b nbyte = some es) :
    ∀ e ∈ es, InSegment nd e := by
  subst hn
  have hlen := hreg.length_lt
  have hsum : u64 ((0 : Nat) + (b : Int)) = b := u64_eq (by omega) (by omega)
  by_cases hb : b = 0
  · rw [xferWindow_zero hreg (by rw [hsum, hb])] at hes
    cases hes
  have hstart : u32 ((b : Int).tdiv fgdsMmapSegmentSize) = b / fgdsMmapSegmentSize := by
    apply u32_tdiv
    simp only [fgdsMmapSegmentSize]
    omega
  by_cases hs : b / fgdsMmapSegmentSize = (b - 1) / fgdsMmapSegmentSize
  · rw [xferWindow_single hreg hsum (by omega) (by omega) (by rw [hstart, hs])] at hes
    cases hes
    intro e he
    rw [List.mem_singleton.mp he]
    have hidx := hreg.segIndex (o := b - 1) (by omega)
    have hoff := hreg.segOffset (o := b - 1) (by omega)
    have hend := hreg.hostEnd _ hidx
    have hmod : u64 ((b : Int).tmod fgdsMmapSegmentSize) = b % fgdsMmapSegmentSize :=
      u64_tmod (by decide) (by decide)
    have hle' : b % fgdsMmapSegmentSize ≤ nd.segLen ((b - 1) / fgdsMmapSegmentSize) := by
      simp only [fgdsMmapSegmentSize] at *; omega
    have ht : u64 (nd.vaddr ((b - 1) / fgdsMmapSegmentSize) + (b % fgdsMmapSegmentSize : Nat)) =
        nd.vaddr ((b - 1) / fgdsMmapSegmentSize) + b % fgdsMmapSegmentSize :=
      u64_eq (by push_cast; rfl) (by omega)
    rw [hmod, ht]
    exact ⟨by simp only; omega, _, hidx, by simp only; omega, by simp only; omega⟩
  · have hr : (b - 1) / fgdsMmapSegmentSize + 1 - b / fgdsMmapSegmentSize = 0 := by
      simp only [fgdsMmapSegmentSize] at *; omega
    rw [xferWindow_eq hreg hsum (by omega) (by omega) _ _ hstart rfl, hr] at hes
    simp only [List.range'_zero, xferLoop] at hes
    split at hes
    · cases hes
    · split at hes
      · cases hes
      · cases hes
        intro e he
        cases he

/-- Any other request gets entries inside the segments, or none at all. -/
theorem xferWindow_good (hreg : nd.Registered) (hlo : -2 ^ 63 ≤ bufOffset)
    (hhi : bufOffset < 2 ^ 63) (hn : nbyte < 2 ^ 64) (h : ¬ WrapAccepted nd bufOffset nbyte)
    {es : List XferAddr} (hes : xferWindow nd bufOffset nbyte = some es) :
    ∀ e ∈ es, InSegment nd e := by
  have hlen := hreg.length_lt
  by_cases hpos : 0 < u64 (nbyte + bufOffset)
  swap
  · rw [xferWindow_zero hreg (by omega)] at hes
    cases hes
  by_cases hle : u64 (nbyte + bufOffset) ≤ nd.length
  swap
  · rw [xferWindow_outside (by omega)] at hes
    cases hes
  by_cases hwrap : bufOffset < 0 ∨ 2 ^ 64 ≤ bufOffset + nbyte
  · -- wrapped, and the start is not in the last segment: refused
    have hdm := tdiv_tmod (d := fgdsMmapSegmentSize) (by decide) bufOffset
    have hpos' : 0 < nbyte := by simp only [u64] at *; omega
    have hnot : ¬ (-(fgdsMmapSegmentSize : Int) < bufOffset ∧ bufOffset < 0) ∧
        u32 (bufOffset.tdiv fgdsMmapSegmentSize) ≠
          (u64 (nbyte + bufOffset) - 1) / fgdsMmapSegmentSize :=
      not_or.mp fun hor => h ⟨hwrap, hpos, hle, hor⟩
    rcases Nat.lt_or_gt_of_ne hnot.2 with hlt | hgt
    · obtain ⟨es', hes'⟩ := xferWindow_several hreg rfl hpos hle _ rfl hlt
      have hleft : u64 (fgdsMmapSegmentSize * (u32 (bufOffset.tdiv fgdsMmapSegmentSize) -
          bufOffset.tdiv fgdsMmapSegmentSize)) ≠ 0 := by
        simp only [u64, u32, fgdsMmapSegmentSize] at *
        omega
      rw [hes', if_pos hleft] at hes
      cases hes
    · rw [xferWindow_backwards hreg rfl hpos hle hpos' hgt] at hes
      cases hes
  · obtain ⟨b, rfl⟩ : ∃ b : Nat, bufOffset = b := ⟨bufOffset.toNat, by omega⟩
    have hsum : u64 (nbyte + b) = b + nbyte := u64_eq (by omega) (by omega)
    rw [hsum] at hpos hle
    by_cases hn0 : 0 < nbyte
    · obtain ⟨es', hes', ht, _⟩ := xferWindow_inside hreg hn0 hle
      rw [hes'] at hes
      cases hes
      intro e he
      obtain ⟨p, _, hq, hlen', hat⟩ := tiles_mem ht he
      exact inSegment_of_at hreg hat hlen' (by omega)
    · exact xferWindow_nothing hreg hle (by omega) hes

end Directions

/-! ## Reachable lists -/

/-- No node of the list has been freed. -/
def Live (head : List MmapNode) (freed : List Nat) : Prop := ∀ nd ∈ head, nd.self ∉ freed

/-- What any calls of `fgds_regmem` and `fgds_deregmem` can make of an opened device, with the
addresses of the nodes freed so far. `malloc` returns no address that is in use, and may return
one that was freed. The memory of a freed node can hold anything, so no call is made on a list
that still has one. -/
inductive Reachable : MmapBuffer → List Nat → Prop
  | opened (deviceId devFd : Int) : Reachable ⟨deviceId, devFd, true, []⟩ []
  | regmem {mb : MmapBuffer} {freed : List Nat} (os : Os) (d : Int) (a l : Nat) :
      Reachable mb freed → Live mb.head freed → (∀ nd ∈ mb.head, os.mallocNode ≠ some nd.self) →
      MapsApart os l →
      Reachable (fgdsRegmem os mb d a l).buffer
        (if (fgdsRegmem os mb d a l).ret = 0 then freed.filter (some · ≠ os.mallocNode) else freed)
  | deregmem {mb : MmapBuffer} {freed : List Nat} (os : Os) (a l : Nat) :
      Reachable mb freed → Live mb.head freed →
      Reachable (fgdsDeregmem os mb a l).buffer
        ((fgdsDeregmem os mb a l).released.toList.map MmapNode.self ++ freed)

/-- Every node of the list is as a call of `fgds_regmem` linked it. -/
def FromRegmem (head : List MmapNode) : Prop :=
  ∀ nd ∈ head, ∃ os mb d a l, Linked os mb d a l nd ∧ MapsApart os l

/-- A node with an `int` number of segments is a complete registration, or empty. -/
def Complete (nd : MmapNode) : Prop :=
  nd.mmapCount < 2 ^ 31 → nd.Registered ∨ (nd.length = 0 ∧ nd.mmapCount = 0)

theorem complete_of_linked {os : Os} {mb : MmapBuffer} {d : Int} {a l : Nat} {nd : MmapNode}
    (h : Linked os mb d a l nd) (hap : MapsApart os l) : Complete nd := by
  intro hc
  by_cases hl : l = 0
  · right
    rw [h.length, h.count, hl]
    exact ⟨rfl, rfl⟩
  · left
    exact h.registered (Nat.pos_of_ne_zero hl) hc hap

theorem FromRegmem.complete {head : List MmapNode} (h : FromRegmem head) :
    ∀ nd ∈ head, Complete nd := by
  intro nd hnd
  obtain ⟨os, mb, d, a, l, hl, hap⟩ := h nd hnd
  exact complete_of_linked hl hap

theorem FromRegmem.mapped {head : List MmapNode} (h : FromRegmem head) :
    ∀ nd ∈ head, nd.isMapped = true := by
  intro nd hnd
  obtain ⟨os, mb, d, a, l, hl, _⟩ := h nd hnd
  exact hl.mapped

theorem fgdsDeregmem_subset (os : Os) (mb : MmapBuffer) (a l : Nat) :
    (fgdsDeregmem os mb a l).buffer.head ⊆ mb.head := by
  unfold fgdsDeregmem
  cases findFgdsMmapNode mb.head a l with
  | none => exact fun _ h => h
  | some nd =>
    dsimp only
    split
    · exact fun _ h => h
    · cases hdel : deleteFgdsMmapNode mb.head nd with
      | none => exact fun _ h => h
      | some head =>
        rw [deleteFgdsMmapNode_eq] at hdel
        split at hdel
        · cases hdel
          exact List.eraseP_subset
        · cases hdel

theorem Reachable.fromRegmem {mb : MmapBuffer} {freed : List Nat} (h : Reachable mb freed) :
    FromRegmem mb.head := by
  induction h with
  | opened deviceId devFd => exact fun nd hnd => absurd hnd List.not_mem_nil
  | @regmem mb freed os d a l _ _ _ hap ih =>
    by_cases hret : (fgdsRegmem os mb d a l).ret = 0
    · obtain ⟨nd, hl⟩ := fgdsRegmem_linked hret
      rw [hl.buffer]
      intro m hm
      rcases List.mem_cons.mp hm with rfl | hm
      · exact ⟨os, mb, d, a, l, hl, hap⟩
      · exact ih m hm
    · rw [(fgdsRegmem_refused hret).1]
      exact ih
  | @deregmem mb freed os a l _ _ ih =>
    exact fun nd hnd => ih nd (fgdsDeregmem_subset os mb a l hnd)

/-- An empty node refuses every window: the last segment index would be `2 ^ 32 - 1`. -/
theorem xferWindow_empty {nd : MmapNode} (hlen : nd.length = 0) (hc : nd.mmapCount = 0)
    (bufOffset : Int) (nbyte : Nat) : xferWindow nd bufOffset nbyte = none := by
  by_cases hw : u64 (nbyte + bufOffset) = 0
  · have hend : u64 (bufOffset + nbyte - 1) = 2 ^ 64 - 1 := by
      unfold u64 at *; omega
    have hlast : u32 ((2 ^ 64 - 1) / fgdsMmapSegmentSize : Nat) = 2 ^ 32 - 1 := by decide
    simp only [xferWindow, hend, hlast, hc]
    simp
  · exact xferWindow_outside (by omega)

/-- One node of such a list: with an `int` number of segments they are all mapped,
and exactly the wrapped windows go wrong. -/
theorem xferWindow_safe_iff {head : List MmapNode} (h : FromRegmem head) {nd : MmapNode}
    (hnd : nd ∈ head) (hint : nd.mmapCount < 2 ^ 31) {bufOffset : Int} {nbyte : Nat}
    (hlo : -2 ^ 63 ≤ bufOffset) (hhi : bufOffset < 2 ^ 63) (hn : nbyte < 2 ^ 64) :
    (∀ es, xferWindow nd bufOffset nbyte = some es → ∀ e ∈ es, InSegment nd e) ↔
      ¬ WrapAccepted nd bufOffset nbyte := by
  rcases h.complete nd hnd hint with hreg | ⟨hlen, hc⟩
  · constructor
    · intro hsafe hacc
      obtain ⟨es, hes, e, he, hbad⟩ := xferWindow_bad hreg hlo hhi hn hacc
      exact hbad (hsafe es hes e he)
    · exact fun hacc es hes => xferWindow_good hreg hlo hhi hn hacc hes
  · refine iff_of_true (fun es hes => ?_) fun hacc => ?_
    · rw [xferWindow_empty hlen hc] at hes
      cases hes
    · have hpos := hacc.2.1
      have hle := hacc.2.2.1
      omega

/-- For every reachable list and every request. If no freed node was left in the list, the node
selected has an `int` number of segments and the request is not one of its wrapped windows, then
the entries returned lie inside one mmap segment of that node each. If they do, and the node has
an `int` number of segments, then the request is no wrapped window, and a node that yields entries
is not freed. -/
theorem xfer_safe_iff {mb : MmapBuffer} {freed : List Nat} (h : Reachable mb freed) (gpuBuf : Nat)
    (bufOffset : Int) (nbyte : Nat) (hlo : -2 ^ 63 ≤ bufOffset) (hhi : bufOffset < 2 ^ 63)
    (hn : nbyte < 2 ^ 64) :
    (Live mb.head freed →
      (∀ nd, findFgdsMmapNode mb.head gpuBuf nbyte = some nd →
        nd.mmapCount < 2 ^ 31 ∧ ¬ WrapAccepted nd bufOffset nbyte) →
      XferSafe mb.head freed gpuBuf bufOffset nbyte) ∧
    ((∀ nd, findFgdsMmapNode mb.head gpuBuf nbyte = some nd → nd.mmapCount < 2 ^ 31) →
      XferSafe mb.head freed gpuBuf bufOffset nbyte →
        ∀ nd, findFgdsMmapNode mb.head gpuBuf nbyte = some nd →
          ¬ WrapAccepted nd bufOffset nbyte ∧
          (fgdsDoXferAddr mb.head gpuBuf bufOffset nbyte ≠ none → nd.self ∉ freed)) := by
  unfold XferSafe
  cases hf : findFgdsMmapNode mb.head gpuBuf nbyte with
  | none => simp [fgdsDoXferAddr_none hf]
  | some nd =>
    rw [fgdsDoXferAddr_some hf]
    have hmem := List.mem_of_find?_eq_some hf
    simp only [Option.some.injEq, exists_eq_left', forall_eq']
    constructor
    · intro hlive hcond es hes
      exact ⟨hlive nd hmem,
        (xferWindow_safe_iff h.fromRegmem hmem hcond.1 hlo hhi hn).mpr hcond.2 es hes⟩
    · intro hint hsafe
      refine ⟨(xferWindow_safe_iff h.fromRegmem hmem hint hlo hhi hn).mp
        fun es hes => (hsafe es hes).2, fun hsome => ?_⟩
      obtain ⟨es, hes⟩ := Option.ne_none_iff_exists'.mp hsome
      exact (hsafe es hes).1

/-- A 128KB region at 1MB, mapped at 4GB. -/
def oneNode : MmapNode := oneSegment 1 4294967296 1048576 131072

theorem oneNode_reachable : Reachable ⟨0, 3, true, [oneNode]⟩ [] := by
  have hnext := Reachable.regmem (plainOs 1 4294967296) 0 1048576 131072 (.opened 0 3)
    (fun nd hnd => absurd hnd List.not_mem_nil) (fun nd hnd => absurd hnd List.not_mem_nil)
    (plainOs_mapsApart _ _ _ (by decide))
  have hbuffer : (fgdsRegmem (plainOs 1 4294967296) ⟨0, 3, true, []⟩ 0 1048576 131072).buffer =
      ⟨0, 3, true, [oneNode]⟩ := by decide +kernel
  simpa [hbuffer] using hnext

/-- An ordinary window of it is safe. -/
theorem xfer_safe_inside :
    findFgdsMmapNode [oneNode] 1048576 65536 = some oneNode ∧
      XferSafe [oneNode] [] 1048576 4096 65536 := by
  have hsel : findFgdsMmapNode [oneNode] 1048576 65536 = some oneNode := by decide +kernel
  have hiff := xfer_safe_iff oneNode_reachable 1048576 4096 65536 (by decide) (by decide)
    (by decide)
  refine ⟨hsel, hiff.1 (fun nd _ => List.not_mem_nil) fun nd hnd => ?_⟩
  rw [hsel, Option.some.injEq] at hnd
  subst hnd
  decide +kernel

/-- The same base with 128KB and then 64KB. Releasing the 128KB takes the other node out of the
list: the one that was freed stays. -/
theorem oneNode_freed : Reachable ⟨0, 3, true, [oneNode]⟩ [1] := by
  have htwo := Reachable.regmem (plainOs 2 8589934592) 0 1048576 65536 oneNode_reachable
    (fun nd _ => List.not_mem_nil) (by decide) (plainOs_mapsApart _ _ _ (by decide))
  have hbuffer : (fgdsRegmem (plainOs 2 8589934592) ⟨0, 3, true, [oneNode]⟩ 0 1048576
      65536).buffer = ⟨0, 3, true, [oneSegment 2 8589934592 1048576 65536, oneNode]⟩ := by
    decide +kernel
  have hnext := Reachable.deregmem (plainOs 0 0) 1048576 131072 htwo
    (by simp [Live])
  have hstale : (fgdsDeregmem (plainOs 0 0) ⟨0, 3, true, [oneSegment 2 8589934592 1048576 65536,
      oneNode]⟩ 1048576 131072).buffer = ⟨0, 3, true, [oneNode]⟩ := by decide +kernel
  have hfreed : (fgdsDeregmem (plainOs 0 0) ⟨0, 3, true, [oneSegment 2 8589934592 1048576 65536,
      oneNode]⟩ 1048576 131072).released = some oneNode := by decide +kernel
  have hself : oneNode.self = 1 := rfl
  simpa [hbuffer, hstale, hfreed, hself] using hnext

/-- 128KB at offset -64KB of the region: the one entry starts 64KB below the mapping. And a window
of the region after the node was freed: the mapping of its entry is gone. -/
theorem xfer_outside_mapping :
    (Reachable ⟨0, 3, true, [oneNode]⟩ [] ∧
      findFgdsMmapNode [oneNode] 1048576 131072 = some oneNode ∧
      fgdsDoXferAddr [oneNode] 1048576 (-65536) 131072 = some [⟨4294901760, 131072⟩] ∧
      ¬ XferSafe [oneNode] [] 1048576 (-65536) 131072) ∧
    Reachable ⟨0, 3, true, [oneNode]⟩ [1] ∧
      fgdsDoXferAddr [oneNode] 1048576 0 65536 = some [⟨4294967296, 65536⟩] ∧
      ¬ XferSafe [oneNode] [1] 1048576 0 65536 := by
  have hsel : findFgdsMmapNode [oneNode] 1048576 131072 = some oneNode := by decide +kernel
  have hes : fgdsDoXferAddr [oneNode] 1048576 (-65536) 131072 = some [⟨4294901760, 131072⟩] := by
    decide +kernel
  have hsel' : findFgdsMmapNode [oneNode] 1048576 65536 = some oneNode := by decide +kernel
  have hes' : fgdsDoXferAddr [oneNode] 1048576 0 65536 = some [⟨4294967296, 65536⟩] := by
    decide +kernel
  refine ⟨⟨oneNode_reachable, hsel, hes, fun hsafe => ?_⟩, oneNode_freed, hes', fun hsafe => ?_⟩
  · obtain ⟨nd, hnd, _, hin⟩ := hsafe _ hes
    rw [hsel, Option.some.injEq] at hnd
    subst hnd
    exact absurd (hin _ List.mem_cons_self) (by decide +kernel)
  · obtain ⟨nd, hnd, hlive, _⟩ := hsafe _ hes'
    rw [hsel', Option.some.injEq] at hnd
    subst hnd
    exact hlive (by decide)

end Fgds.XferSafety
