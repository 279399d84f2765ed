import Fgds.Regmem

/-!
# Registration and deregistration balance

Histories of `fgds_regmem` and `fgds_deregmem` calls on one opened device, in which
the live regions are pairwise disjoint and the operating system grants every call.
A ghost list keeps, for each live registration, the triples (GPU address, host
address, length) that the MAP calls of its `fgds_regmem` were about.

* `Balanced`: the invariant, kept by both operations (`Balanced.regmem`,
  `Balanced.deregmem`);
* `regmem_deregmem_balance`: after every history the node list is the list of live
  registrations, a registration maps its range exactly once, and a deregistration
  undoes exactly what its registration did.
-/

namespace Fgds.Balance

open Fgds.Lib.CInt Fgds.Lib.Tiling Fgds.Device Fgds.Regmem

/-! ## Histories -/

/-- A live registration, with the mappings its `fgds_regmem` asked for. -/
structure Live where
  addr : Nat
  len : Nat
  maps : List Mapping
  deriving DecidableEq, Repr

/-- The triples that the MAP calls in a list of system calls are about. -/
def mapped (calls : List OsCall) : List Mapping :=
  calls.filterMap fun
    | .ioctlMap _ p _ => some ⟨p.gpuAddr, p.hostVaddr, p.gpuAddrSize⟩
    | _ => none

def Live.Apart (x : Live) (a l : Nat) : Prop := x.addr + x.len ≤ a ∨ a + l ≤ x.addr

/-- The requests the histories are about: a positive multiple of 64KB. -/
structure Request (live : List Live) (a l : Nat) : Prop where
  addr : a < 2 ^ 48
  len : l < 2 ^ 48
  pos : 0 < l
  aligned : l % fgdsGpuPageSize = 0
  apart : ∀ x ∈ live, x.Apart a l

/-- The states after a history on device `d`. A deregistration takes its key, if it is
there, out of the live ones. -/
inductive History (d : Int) : MmapBuffer → List Live → Prop
  | opened (deviceId devFd : Int) : History d ⟨deviceId, devFd, true, []⟩ []
  | regmem {mb : MmapBuffer} {live : List Live} (os : Os) (a l : Nat) :
      History d mb live → os.Grants → Request live a l →
      History d (fgdsRegmem os mb d a l).buffer
        (⟨a, l, mapped (fgdsRegmem os mb d a l).calls⟩ :: live)
  | deregmem {mb : MmapBuffer} {live : List Live} (os : Os) (a l : Nat) :
      History d mb live → os.Grants → a < 2 ^ 48 → l < 2 ^ 48 →
      History d (fgdsDeregmem os mb a l).buffer
        (live.filter fun x => ¬ (x.addr = a ∧ x.len = l))

/-! ## The invariant -/

def Live.ofNode (nd : MmapNode) : Live := ⟨nd.gpuAddr, nd.length, mappings nd⟩

/-- What is known of every node of the list. -/
structure Sound (nd : MmapNode) : Prop where
  addr : nd.gpuAddr < 2 ^ 48
  len : nd.length < 2 ^ 48
  pos : 0 < nd.length
  count : nd.mmapCount = mmapCountOf nd.length
  left : nd.lengthLeft = nd.length % fgdsMmapSegmentSize
  mapped : nd.isMapped = true

structure Balanced (mb : MmapBuffer) (live : List Live) : Prop where
  initialized : mb.initialized = true
  entries : mb.head.map Live.ofNode = live
  sound : ∀ nd ∈ mb.head, Sound nd
  disjoint : mb.head.Pairwise GpuDisjoint

theorem Sound.countInt {nd : MmapNode} (h : Sound nd) : nd.mmapCount < 2 ^ 31 := by
  have hl := h.len
  rw [h.count, mmapCountOf_eq]
  omega

theorem Balanced.gpuEnd {mb : MmapBuffer} {live : List Live} (h : Balanced mb live) :
    ∀ nd ∈ mb.head, nd.gpuAddr + nd.length < 2 ^ 64 := by
  intro nd hnd
  have ha := (h.sound nd hnd).addr
  have hl := (h.sound nd hnd).len
  omega

theorem mapped_mapCalls (mb : MmapBuffer) (ms : List Mapping) :
    mapped (ms.flatMap (Mapping.mapCalls mb)) = ms := by
  induction ms with
  | nil => rfl
  | cons m ms ih =>
    rw [List.flatMap_cons, mapped, List.filterMap_append, ← mapped, ← mapped, ih]
    rfl

/-! ## Registration -/

section Steps

variable {os : Os} {mb : MmapBuffer} {live : List Live} {d : Int} {a l : Nat}

/-- A granted registration: the node it links and the calls it makes. -/
theorem Balanced.linked (h : Balanced mb live) (hos : os.Grants) (hreq : Request live a l) :
    (fgdsRegmem os mb d a l).ret = 0 ∧ ∃ nd, Linked os mb d a l nd ∧ Sound nd := by
  have hret : (fgdsRegmem os mb d a l).ret = 0 :=
    fgdsRegmem_granted hos h.initialized hreq.aligned
  obtain ⟨nd, hl⟩ := fgdsRegmem_linked hret
  refine ⟨hret, nd, hl, ?_, ?_, ?_, ?_, ?_, hl.mapped⟩
  · rw [hl.gpuAddr]; exact hreq.addr
  · rw [hl.length]; exact hreq.len
  · rw [hl.length]; exact hreq.pos
  · rw [hl.length]; exact hl.count
  · rw [hl.length]; exact hl.left

/-- Segment `i` goes from border `i` to border `i + 1`, or to the end of the region. -/
theorem Sound.segment {nd : MmapNode} (h : Sound nd) {i : Nat} (hi : i < nd.mmapCount) :
    min (i * fgdsMmapSegmentSize) nd.length + nd.segLen i =
        min ((i + 1) * fgdsMmapSegmentSize) nd.length ∧
      0 < nd.segLen i ∧ nd.segLen i ≤ fgdsMmapSegmentSize ∧
      u64 (nd.gpuAddr + i * fgdsMmapSegmentSize) =
        nd.gpuAddr + min (i * fgdsMmapSegmentSize) nd.length := by
  have hc := h.count
  have hleft := h.left
  rw [mmapCountOf_eq] at hc
  have hbord : i * fgdsMmapSegmentSize ≤ nd.length := by
    simp only [fgdsMmapSegmentSize]
    omega
  have hgpu : u64 (nd.gpuAddr + i * fgdsMmapSegmentSize) =
      nd.gpuAddr + i * fgdsMmapSegmentSize := by
    have ha := h.addr
    have hlen := h.len
    exact u64_eq (by push_cast; ring) (by omega)
  rw [hgpu, Nat.min_eq_left hbord]
  clear hgpu
  have hS : fgdsMmapSegmentSize = 1073741824 := rfl
  rw [Nat.min_def, MmapNode.segLen]
  simp only [hS] at hbord hleft ⊢
  refine ⟨?_, ?_, ?_, trivial⟩ <;> split_ifs <;> omega

/-- The segments from `i` on make up the rest of the region. -/
theorem Sound.tiles_from {nd : MmapNode} (h : Sound nd) {i rounds : Nat}
    (hi : i + rounds = nd.mmapCount) :
    Tiles Mapping.len (fun p m => m.gpu = p ∧ m.len ≤ fgdsMmapSegmentSize)
      (nd.gpuAddr + min (i * fgdsMmapSegmentSize) nd.length) (nd.gpuAddr + nd.length)
      ((List.range' i rounds).map (mapping nd)) := by
  induction rounds generalizing i with
  | zero =>
    have hc := h.count
    rw [mmapCountOf_eq] at hc
    simp only [List.range'_zero, List.map_nil, tiles_nil, fgdsMmapSegmentSize]
    omega
  | succ rounds ih =>
    obtain ⟨hnext, hpos, hle, hgpu⟩ := h.segment (i := i) (by omega)
    have hrest := ih (i := i + 1) (by omega)
    rw [← hnext, ← Nat.add_assoc] at hrest
    exact ⟨hpos, ⟨hgpu, hle⟩, hrest⟩

/-- The segments of a node are consecutive, at most 1GB each, and make up its range. -/
theorem Sound.tiles {nd : MmapNode} (h : Sound nd) :
    Tiles Mapping.len (fun p m => m.gpu = p ∧ m.len ≤ fgdsMmapSegmentSize) nd.gpuAddr
      (nd.gpuAddr + nd.length) (mappings nd) := by
  have ht := h.tiles_from (i := 0) (Nat.zero_add _)
  rw [Nat.zero_mul, Nat.zero_min, Nat.add_zero, ← List.range_eq_range'] at ht
  exact ht

theorem Balanced.regmem (h : Balanced mb live) (hos : os.Grants) (hreq : Request live a l) :
    Balanced (fgdsRegmem os mb d a l).buffer
      (⟨a, l, mapped (fgdsRegmem os mb d a l).calls⟩ :: live) := by
  obtain ⟨_, nd, hl, hs⟩ := h.linked (d := d) hos hreq
  rw [hl.buffer, hl.calls hs.countInt, mapped_mapCalls]
  refine ⟨h.initialized, ?_, ?_, ?_⟩
  · simp only [List.map_cons, h.entries, Live.ofNode, hl.gpuAddr, hl.length]
  · intro nd' hnd'
    rcases List.mem_cons.mp hnd' with rfl | hmem
    · exact hs
    · exact h.sound nd' hmem
  · refine List.pairwise_cons.mpr ⟨fun nd' hmem => ?_, h.disjoint⟩
    have hlive : Live.ofNode nd' ∈ live := h.entries ▸ List.mem_map_of_mem hmem
    have hap := hreq.apart _ hlive
    simp only [Live.Apart, Live.ofNode] at hap
    simp only [GpuDisjoint, hl.gpuAddr, hl.length]
    omega

/-! ## Deregistration -/

theorem eraseP_eq_filter {α : Type} {p : α → Bool} {xs : List α}
    (h : xs.Pairwise fun x y => ¬ (p x ∧ p y)) : xs.eraseP p = xs.filter fun x => ¬ p x := by
  induction xs with
  | nil => rfl
  | cons x xs ih =>
    obtain ⟨hx, hxs⟩ := List.pairwise_cons.mp h
    by_cases hp : p x
    · have hall : ∀ y ∈ xs, ¬ p y := fun y hy hpy => hx y hy ⟨hp, hpy⟩
      rw [List.eraseP_cons_of_pos hp, List.filter_cons_of_neg (by simp [hp])]
      exact (List.filter_eq_self.mpr fun y hy => by simp [hall y hy]).symm
    · rw [List.eraseP_cons_of_neg hp, List.filter_cons_of_pos (by simp [hp]), ih hxs]

/-- The keys of the live registrations are the bases and lengths of the nodes. -/
theorem Balanced.live_iff (h : Balanced mb live) :
    (∃ x ∈ live, x.addr = a ∧ x.len = l) ↔ ∃ nd ∈ mb.head, nd.gpuAddr = a ∧ nd.length = l := by
  rw [← h.entries]
  simp [Live.ofNode]

/-- Disjoint regions have different bases. -/
theorem Balanced.base_inj (h : Balanced mb live) {nd nd' : MmapNode} (hnd : nd ∈ mb.head)
    (hnd' : nd' ∈ mb.head) (he : nd.gpuAddr = nd'.gpuAddr) : nd = nd' := by
  by_contra hne
  have hd : GpuDisjoint nd nd' := h.disjoint.forall hnd hnd' hne
  have hp := (h.sound nd hnd).pos
  have hp' := (h.sound nd' hnd').pos
  simp only [GpuDisjoint] at hd
  omega

/-- A key that is not live is refused: nothing changes and nothing is called. -/
theorem Balanced.not_live (h : Balanced mb live) (ha : a < 2 ^ 48) (hl : l < 2 ^ 48)
    (hn : ¬ ∃ x ∈ live, x.addr = a ∧ x.len = l) :
    fgdsDeregmem os mb a l = ⟨-1, mb, [], none⟩ := by
  apply fgdsDeregmem_refused
  intro nd hf hlen
  have hmem : nd ∈ mb.head := List.mem_of_find?_eq_some hf
  have hcov : nd.covers a l = true := by simpa using List.find?_some hf
  have hc := (MmapNode.covers_iff (h.gpuEnd nd hmem) (by omega)).mp hcov
  exact hn (h.live_iff.mpr ⟨nd, hmem, by omega, hlen⟩)

/-- The node with a base is unlinked, and only that node. -/
theorem Balanced.delete (h : Balanced mb live) {nd : MmapNode} (hnd : nd ∈ mb.head) :
    deleteFgdsMmapNode mb.head nd =
      some (mb.head.filter fun m => ¬ m.gpuAddr = nd.gpuAddr) := by
  have hany : mb.head.any (fun m => m.gpuAddr = nd.gpuAddr) = true :=
    List.any_eq_true.mpr ⟨nd, hnd, by simp⟩
  have huniq : mb.head.Pairwise fun m m' =>
      ¬ (decide (m.gpuAddr = nd.gpuAddr) ∧ decide (m'.gpuAddr = nd.gpuAddr)) := by
    refine h.disjoint.imp_of_mem fun {m m'} hm hm' hd hboth => ?_
    have hp := (h.sound m hm).pos
    have hp' := (h.sound m' hm').pos
    simp only [decide_eq_true_eq, GpuDisjoint] at hboth hd
    omega
  rw [deleteFgdsMmapNode_eq, if_pos hany, eraseP_eq_filter huniq]
  simp

/-- A live key is released: its mappings are undone, and the node is taken out. -/
theorem Balanced.released (h : Balanced mb live) (hos : os.Grants) {nd : MmapNode}
    (hnd : nd ∈ mb.head) :
    fgdsDeregmem os mb nd.gpuAddr nd.length =
      ⟨0, { mb with head := mb.head.filter fun m => ¬ m.gpuAddr = nd.gpuAddr },
        (mappings nd).flatMap (Mapping.unmapCalls mb), some nd⟩ := by
  have hs := h.sound nd hnd
  have hf : findFgdsMmapNode mb.head nd.gpuAddr nd.length = some nd :=
    find_of_disjoint h.gpuEnd h.disjoint hnd hs.pos (Nat.le_refl _) (Nat.le_refl _)
  have hcalls : (unmapLoop os mb nd nd.mmapCount 0 0).2 =
      (List.range' 0 nd.mmapCount).flatMap fun j => (mapping nd j).unmapCalls mb :=
    unmapLoop_calls hos h.initialized hs.countInt (Nat.zero_add _) (by simp)
  rw [fgdsDeregmem_found hf rfl hs.mapped (h.delete hnd), unmapLoop_granted hos h.initialized,
    hcalls, mappings, List.flatMap_map, List.range_eq_range']

theorem Balanced.deregmem (h : Balanced mb live) (hos : os.Grants) (ha : a < 2 ^ 48)
    (hl : l < 2 ^ 48) :
    Balanced (fgdsDeregmem os mb a l).buffer
      (live.filter fun x => ¬ (x.addr = a ∧ x.len = l)) := by
  by_cases hlive : ∃ x ∈ live, x.addr = a ∧ x.len = l
  · obtain ⟨nd, hnd, rfl, rfl⟩ := h.live_iff.mp hlive
    rw [h.released hos hnd]
    refine ⟨h.initialized, ?_, fun m hm => h.sound m (List.mem_of_mem_filter hm),
      h.disjoint.filter _⟩
    rw [← h.entries, List.filter_map]
    congr 1
    -- a node with that base is `nd` itself, so the length agrees as well
    apply List.filter_congr
    intro m hm
    have hbase : m.gpuAddr = nd.gpuAddr → m.length = nd.length :=
      fun he => by rw [h.base_inj hm hnd he]
    by_cases he : m.gpuAddr = nd.gpuAddr
    · simp [Live.ofNode, he, hbase he]
    · simp [Live.ofNode, he]
  · rw [h.not_live ha hl hlive, List.filter_eq_self.mpr]
    · exact h
    · intro x hx
      simp only [decide_not, Bool.not_eq_true', decide_eq_false_iff_not]
      exact fun he => hlive ⟨x, hx, he⟩

end Steps

/-! ## Every history -/

theorem History.balanced {d : Int} {mb : MmapBuffer} {live : List Live} (h : History d mb live) :
    Balanced mb live := by
  induction h with
  | opened deviceId devFd => exact ⟨rfl, rfl, by simp, List.Pairwise.nil⟩
  | regmem os a l _ hos hreq ih => exact ih.regmem hos hreq
  | deregmem os a l _ hos ha hl ih => exact ih.deregmem hos ha hl

/-- After every history: the nodes are the live registrations; the next `fgds_regmem`
maps its range once, in consecutive segments; the next `fgds_deregmem` succeeds exactly
on a live key, undoes exactly the mappings recorded for it, and otherwise does nothing. -/
theorem regmem_deregmem_balance {d : Int} {mb : MmapBuffer} {live : List Live}
    (h : History d mb live) :
    mb.head.map Live.ofNode = live ∧
    (∀ (os : Os) (a l : Nat), os.Grants → Request live a l →
      (fgdsRegmem os mb d a l).ret = 0 ∧
      ∃ ms, (fgdsRegmem os mb d a l).calls = ms.flatMap (Mapping.mapCalls { mb with deviceId := d })
        ∧ Tiles Mapping.len (fun p m => m.gpu = p ∧ m.len ≤ fgdsMmapSegmentSize) a (a + l) ms) ∧
    (∀ (os : Os) (a l : Nat), os.Grants → a < 2 ^ 48 → l < 2 ^ 48 →
      ((fgdsDeregmem os mb a l).ret = 0 ↔ ∃ x ∈ live, x.addr = a ∧ x.len = l) ∧
      (∀ x ∈ live, x.addr = a → x.len = l →
        (fgdsDeregmem os mb a l).calls = x.maps.flatMap (Mapping.unmapCalls mb)) ∧
      ((fgdsDeregmem os mb a l).ret ≠ 0 →
        (fgdsDeregmem os mb a l).buffer = mb ∧ (fgdsDeregmem os mb a l).calls = [])) := by
  have hb := h.balanced
  refine ⟨hb.entries, fun os a l hos hreq => ?_, fun os a l hos ha hl => ?_⟩
  · obtain ⟨hret, nd, hl, hs⟩ := hb.linked (d := d) hos hreq
    have ht := hs.tiles
    rw [hl.gpuAddr, hl.length] at ht
    exact ⟨hret, mappings nd, hl.calls hs.countInt, ht⟩
  · by_cases hlive : ∃ x ∈ live, x.addr = a ∧ x.len = l
    · obtain ⟨nd, hnd, rfl, rfl⟩ := hb.live_iff.mp hlive
      rw [hb.released hos hnd]
      refine ⟨iff_of_true rfl hlive, fun x hx hxa hxl => ?_, fun hne => absurd rfl hne⟩
      rw [← hb.entries] at hx
      obtain ⟨nd', hnd', rfl⟩ := List.mem_map.mp hx
      rw [hb.base_inj hnd' hnd hxa]
      rfl
    · rw [hb.not_live ha hl hlive]
      refine ⟨iff_of_false (by simp) hlive, fun x hx hxa hxl => ?_, fun _ => ⟨rfl, rfl⟩⟩
      exact absurd ⟨x, hx, hxa, hxl⟩ hlive

/-- Releasing the first of two regions undoes its two mappings. -/
theorem regmem_deregmem_balance_two :
    (fgdsDeregmem (plainOs 0 0) twoLive 1048576 1073872896).ret = 0 ∧
      (fgdsDeregmem (plainOs 0 0) twoLive 1048576 1073872896).calls =
        [⟨1048576, 4294967296, 1073741824⟩, ⟨1074790400, 5368709120, 131072⟩].flatMap
          (Mapping.unmapCalls twoLive) := by
  have hfirst := History.regmem (plainOs 1 4294967296) 1048576 1073872896 (.opened (d := 0) 0 3)
    (plainOs_grants 1 4294967296) ⟨by decide, by decide, by decide, by decide, by simp⟩
  have hapart : ∀ ms, ∀ x ∈ [Live.mk 1048576 1073872896 ms], x.Apart 8589934592 131072 := by
    intro ms x hx
    rw [List.mem_singleton.mp hx]
    exact .inl (show 1048576 + 1073872896 ≤ 8589934592 by decide)
  have hboth := hfirst.regmem (plainOs 2 17179869184) 8589934592 131072
    (plainOs_grants 2 17179869184) ⟨by decide, by decide, by decide, by decide, hapart _⟩
  obtain ⟨_, _, hrelease⟩ := regmem_deregmem_balance hboth
  obtain ⟨hret, hcalls, _⟩ := hrelease (plainOs 0 0) 1048576 1073872896 (plainOs_grants 0 0)
    (by decide) (by decide)
  have hmaps : mapped (fgdsRegmem (plainOs 1 4294967296) ⟨0, 3, true, []⟩ 0 1048576
      1073872896).calls =
        [⟨1048576, 4294967296, 1073741824⟩, ⟨1074790400, 5368709120, 131072⟩] := by
    decide +kernel
  rw [hmaps] at hret hcalls
  exact ⟨hret.mpr ⟨_, List.mem_cons_of_mem _ List.mem_cons_self, rfl, rfl⟩,
    hcalls _ (List.mem_cons_of_mem _ List.mem_cons_self) rfl rfl⟩

end Fgds.Balance
