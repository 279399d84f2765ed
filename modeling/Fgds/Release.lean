import Fgds.Regmem

/-!
# Which node a deregistration takes out of the list

`fgds_deregmem` selects a node because its range contains the request, accepts it if
its length is the requested one, and unlinks the first node with the same base. The
histories here register and release any ranges, overlapping ones included. A ghost
list keeps the registrations that have not been released.

* `Untangled`: the three notions of identity agree on a request;
* `released_exactly`: in a run whose deregistrations are all untangled, the list holds
  exactly the registrations not released, and the next deregistration takes out the
  node it releases, and no other, if and only if it is untangled too;
* `stale_node`: a run with the same base registered twice leaves a released node in
  the list.
-/

namespace Fgds.Release

open Fgds.Device Fgds.Regmem

/-! ## Runs -/

/-- A registration: the node allocated for it and what was asked for. -/
structure Reg where
  self : Nat
  addr : Nat
  len : Nat
  deriving DecidableEq, Repr

def Reg.ofNode (nd : MmapNode) : Reg := ⟨nd.self, nd.gpuAddr, nd.length⟩

/-- The registrations after `fgds_regmem`. -/
def registerReg (os : Os) (a l : Nat) (ret : Int) (live : List Reg) : List Reg :=
  if ret = 0 then ⟨os.mallocNode.getD 0, a, l⟩ :: live else live

/-- The registrations after `fgds_deregmem`, which passed `released` to `free`. -/
def releaseReg (released : Option MmapNode) (live : List Reg) : List Reg :=
  match released with
  | none => live
  | some nd => live.filter fun x => x.self ≠ nd.self

/-- Runs of `fgds_regmem` and `fgds_deregmem` on device `d`, with any answers of the
operating system. `malloc` returns no address that is in use; every deregistration
meets `ok`. -/
inductive Run (d : Int) (ok : List MmapNode → Nat → Nat → Prop) : MmapBuffer → List Reg → Prop
  | opened (deviceId devFd : Int) : Run d ok ⟨deviceId, devFd, true, []⟩ []
  | regmem {mb : MmapBuffer} {live : List Reg} (os : Os) (a l : Nat) :
      Run d ok mb live → (∀ x ∈ live, os.mallocNode ≠ some x.self) →
      Run d ok (fgdsRegmem os mb d a l).buffer
        (registerReg os a l (fgdsRegmem os mb d a l).ret live)
  | deregmem {mb : MmapBuffer} {live : List Reg} (os : Os) (a l : Nat) :
      Run d ok mb live → ok mb.head a l →
      Run d ok (fgdsDeregmem os mb a l).buffer
        (releaseReg (fgdsDeregmem os mb a l).released live)

/-- If the newest node that covers the request has the requested length, then it is
also the newest one with its base; and it has that length if the request is the key
of some node. -/
def Untangled (head : List MmapNode) (a l : Nat) : Prop :=
  (∀ nd, head.find? (·.covers a l) = some nd → nd.length = l →
    head.find? (·.gpuAddr = nd.gpuAddr) = some nd) ∧
  ((∃ m ∈ head, m.gpuAddr = a ∧ m.length = l) →
    ∃ nd, head.find? (·.covers a l) = some nd ∧ nd.length = l)

/-- What a deregistration should do: take out the node it releases and no other, and
succeed on the key of a node. -/
def TakesOutReleased (os : Os) (mb : MmapBuffer) (a l : Nat) : Prop :=
  (∀ nd, (fgdsDeregmem os mb a l).released = some nd →
    nd ∈ mb.head ∧ (fgdsDeregmem os mb a l).buffer.head = mb.head.erase nd) ∧
  ((fgdsDeregmem os mb a l).released = none →
    (fgdsDeregmem os mb a l).buffer.head = mb.head) ∧
  ((∃ m ∈ mb.head, m.gpuAddr = a ∧ m.length = l) →
    (fgdsDeregmem os mb a l).released.isSome ∧ (os.Grants → (fgdsDeregmem os mb a l).ret = 0))

/-! ## One deregistration -/

/-- In a list without duplicates, erasing by a predicate erases `nd` exactly when `nd`
is the first element it holds of. -/
theorem eraseP_eq_erase_iff {p : MmapNode → Bool} {nd : MmapNode} {head : List MmapNode}
    (hnodup : head.Nodup) (hnd : nd ∈ head) (hp : p nd) :
    head.eraseP p = head.erase nd ↔ head.find? p = some nd := by
  induction head with
  | nil => cases hnd
  | cons x xs ih =>
    obtain ⟨hx, hxs⟩ := List.nodup_cons.mp hnodup
    by_cases hpx : p x
    · rw [List.eraseP_cons_of_pos hpx, List.find?_cons_of_pos hpx, Option.some.injEq]
      by_cases he : x = nd
      · subst he
        simp
      · refine iff_of_false (fun h => hx ?_) he
        rw [h, List.erase_cons_tail (by simpa using he)]
        exact List.mem_cons_self
    · have he : x ≠ nd := fun he => hpx (he ▸ hp)
      have hmem : nd ∈ xs := (List.mem_cons.mp hnd).resolve_left (Ne.symm he)
      rw [List.eraseP_cons_of_neg hpx, List.find?_cons_of_neg hpx,
        List.erase_cons_tail (by simpa using he), List.cons.injEq]
      simpa using ih hxs hmem

section Step

variable {mb : MmapBuffer} {a l : Nat}

/-- The deregistration in terms of the selected node. -/
theorem fgdsDeregmem_selected (os : Os) (hmapped : ∀ nd ∈ mb.head, nd.isMapped = true)
    {nd : MmapNode} (hf : mb.head.find? (·.covers a l) = some nd) (hl : nd.length = l) :
    fgdsDeregmem os mb a l =
      ⟨(unmapLoop os mb nd nd.mmapCount 0 0).1,
        { mb with head := mb.head.eraseP fun m => m.gpuAddr = nd.gpuAddr },
        (unmapLoop os mb nd nd.mmapCount 0 0).2, some nd⟩ := by
  have hmem := List.mem_of_find?_eq_some hf
  have hany : mb.head.any (fun m => m.gpuAddr = nd.gpuAddr) = true :=
    List.any_eq_true.mpr ⟨nd, hmem, by simp⟩
  exact fgdsDeregmem_found hf hl (hmapped nd hmem) (by rw [deleteFgdsMmapNode_eq, if_pos hany])

/-- A deregistration does what it should exactly when the request is untangled. -/
theorem takesOutReleased_iff (os : Os) (hini : mb.initialized = true) (hnodup : mb.head.Nodup)
    (hmapped : ∀ nd ∈ mb.head, nd.isMapped = true) :
    TakesOutReleased os mb a l ↔ Untangled mb.head a l := by
  by_cases hsel : ∃ nd, mb.head.find? (·.covers a l) = some nd ∧ nd.length = l
  · obtain ⟨nd, hf, hl⟩ := hsel
    have hmem := List.mem_of_find?_eq_some hf
    have herase := eraseP_eq_erase_iff (p := fun m => m.gpuAddr = nd.gpuAddr) hnodup hmem
      (by simp)
    rw [TakesOutReleased, fgdsDeregmem_selected os hmapped hf hl, Untangled]
    constructor
    · rintro ⟨hrel, _, _⟩
      refine ⟨fun nd' hf' _ => ?_, fun _ => ⟨nd, hf, hl⟩⟩
      rw [hf, Option.some.injEq] at hf'
      subst hf'
      exact herase.mp (hrel nd rfl).2
    · rintro ⟨hfirst, _⟩
      refine ⟨fun nd' hrel => ?_, fun h => by simp at h, fun _ => ⟨rfl, fun hos => ?_⟩⟩
      · simp only [Option.some.injEq] at hrel
        subst hrel
        exact ⟨hmem, herase.mpr (hfirst nd hf hl)⟩
      · exact unmapLoop_granted hos hini _ _ _
  · have href : fgdsDeregmem os mb a l = ⟨-1, mb, [], none⟩ :=
      fgdsDeregmem_refused fun nd hf hl => hsel ⟨nd, hf, hl⟩
    rw [TakesOutReleased, href, Untangled]
    constructor
    · rintro ⟨_, _, hkey⟩
      refine ⟨fun nd hf hl => absurd ⟨nd, hf, hl⟩ hsel, fun hm => ?_⟩
      simpa using (hkey hm).1
    · rintro ⟨_, hkey⟩
      exact ⟨fun nd h => by simp at h, fun _ => rfl, fun hm => absurd (hkey hm) hsel⟩

end Step

/-! ## Every run -/

/-- The list is the ghost list, and different nodes were allocated differently. -/
structure Exact (mb : MmapBuffer) (live : List Reg) : Prop where
  initialized : mb.initialized = true
  entries : mb.head.map Reg.ofNode = live
  mapped : ∀ nd ∈ mb.head, nd.isMapped = true
  fresh : (mb.head.map MmapNode.self).Nodup

theorem Exact.nodup {mb : MmapBuffer} {live : List Reg} (h : Exact mb live) : mb.head.Nodup :=
  h.fresh.of_map _

theorem Exact.self_inj {mb : MmapBuffer} {live : List Reg} (h : Exact mb live)
    {m nd : MmapNode} (hm : m ∈ mb.head) (hnd : nd ∈ mb.head) : m.self = nd.self ↔ m = nd :=
  ⟨fun he => List.inj_on_of_nodup_map h.fresh hm hnd he, fun he => he ▸ rfl⟩

theorem Exact.regmem {mb : MmapBuffer} {live : List Reg} (h : Exact mb live) (os : Os) (d : Int)
    (a l : Nat) (hnew : ∀ x ∈ live, os.mallocNode ≠ some x.self) :
    Exact (fgdsRegmem os mb d a l).buffer
      (registerReg os a l (fgdsRegmem os mb d a l).ret live) := by
  by_cases hret : (fgdsRegmem os mb d a l).ret = 0
  · obtain ⟨nd, hl⟩ := fgdsRegmem_linked hret
    rw [hl.buffer, registerReg, if_pos hret, hl.self, Option.getD_some]
    refine ⟨h.initialized, ?_, ?_, ?_⟩
    · simp only [List.map_cons, h.entries, Reg.ofNode, hl.gpuAddr, hl.length]
    · intro m hm
      rcases List.mem_cons.mp hm with rfl | hm
      · exact hl.mapped
      · exact h.mapped m hm
    · refine List.nodup_cons.mpr ⟨fun hmem => ?_, h.fresh⟩
      obtain ⟨m, hm, he⟩ := List.mem_map.mp hmem
      have hlive : Reg.ofNode m ∈ live := h.entries ▸ List.mem_map_of_mem hm
      exact hnew _ hlive (by rw [hl.self, ← he]; rfl)
  · obtain ⟨hhead, hini⟩ := fgdsRegmem_refused hret
    rw [registerReg, if_neg hret]
    exact ⟨hini.trans h.initialized, by rw [hhead]; exact h.entries,
      by rw [hhead]; exact h.mapped, by rw [hhead]; exact h.fresh⟩

theorem Exact.deregmem {mb : MmapBuffer} {live : List Reg} (h : Exact mb live) (os : Os)
    (a l : Nat) (hok : Untangled mb.head a l) :
    Exact (fgdsDeregmem os mb a l).buffer
      (releaseReg (fgdsDeregmem os mb a l).released live) := by
  by_cases hsel : ∃ nd, mb.head.find? (·.covers a l) = some nd ∧ nd.length = l
  · obtain ⟨nd, hf, hl⟩ := hsel
    have hmem := List.mem_of_find?_eq_some hf
    have herase : mb.head.eraseP (fun m => m.gpuAddr = nd.gpuAddr) =
        mb.head.filter fun m => m ≠ nd := by
      rw [(eraseP_eq_erase_iff h.nodup hmem (by simp)).mpr (hok.1 nd hf hl),
        h.nodup.erase_eq_filter]
      apply List.filter_congr
      intro m _
      by_cases he : m = nd <;> simp [he]
    rw [fgdsDeregmem_selected os h.mapped hf hl]
    simp only [herase, releaseReg]
    refine ⟨h.initialized, ?_, fun m hm => h.mapped m (List.mem_of_mem_filter hm), ?_⟩
    · rw [← h.entries, List.filter_map]
      congr 1
      apply List.filter_congr
      intro m hm
      simp [Reg.ofNode, h.self_inj hm hmem]
    · exact h.fresh.sublist (List.filter_sublist.map _)
  · rw [fgdsDeregmem_refused fun nd hf hl => hsel ⟨nd, hf, hl⟩]
    exact h

theorem Run.exact {d : Int} {mb : MmapBuffer} {live : List Reg} (h : Run d Untangled mb live) :
    Exact mb live := by
  induction h with
  | opened deviceId devFd => exact ⟨rfl, rfl, by simp, List.nodup_nil⟩
  | regmem os a l _ hnew ih => exact ih.regmem os _ a l hnew
  | deregmem os a l _ hok ih => exact ih.deregmem os a l hok

/-- In every run whose deregistrations are untangled the nodes of the list are the
registrations not released, and the next deregistration takes out the node it releases
and no other, and succeeds on the key of a node, exactly when it is untangled too. -/
theorem released_exactly {d : Int} {mb : MmapBuffer} {live : List Reg}
    (h : Run d Untangled mb live) :
    mb.head.map Reg.ofNode = live ∧
      ∀ (os : Os) (a l : Nat), TakesOutReleased os mb a l ↔ Untangled mb.head a l :=
  ⟨h.exact.entries, fun os _ _ =>
    takesOutReleased_iff os h.exact.initialized h.exact.nodup h.exact.mapped⟩

theorem twoLive_head : twoLive.head =
    [⟨2, [17179869184], 1, 8589934592, 131072, 131072, true⟩,
      ⟨1, [4294967296, 5368709120], 2, 1048576, 1073872896, 131072, true⟩] := by
  decide +kernel

/-- The older of two regions is released first. -/
theorem released_exactly_older :
    twoLive.head.map Reg.ofNode = [⟨2, 8589934592, 131072⟩, ⟨1, 1048576, 1073872896⟩] ∧
      TakesOutReleased (plainOs 0 0) twoLive 1048576 1073872896 := by
  have hrun : Run 0 Untangled twoLive _ :=
    .regmem (plainOs 2 17179869184) 8589934592 131072
      (.regmem (plainOs 1 4294967296) 1048576 1073872896 (.opened 0 3) (by simp))
      (by decide +kernel)
  obtain ⟨hlive, hreleased⟩ := released_exactly hrun
  refine ⟨hlive.trans (by decide +kernel), (hreleased _ _ _).mpr ?_⟩
  rw [twoLive_head]
  refine ⟨fun nd hf _ => ?_, fun _ => ?_⟩
  · have hnd : nd = ⟨1, [4294967296, 5368709120], 2, 1048576, 1073872896, 131072, true⟩ :=
      Option.some.inj (hf.symm.trans (by decide +kernel))
    subst hnd
    decide +kernel
  · exact ⟨⟨1, [4294967296, 5368709120], 2, 1048576, 1073872896, 131072, true⟩,
      by decide +kernel, rfl⟩

/-- The same base with 128KB and then 64KB: releasing the 128KB takes the 64KB node out
of the list and leaves the released one in it. -/
theorem stale_node :
    ∃ mb live, Run 0 (fun _ _ _ => True) mb live ∧ ∃ nd ∈ mb.head, Reg.ofNode nd ∉ live := by
  refine ⟨_, _, .deregmem (plainOs 0 0) 1048576 131072
    (.regmem (plainOs 2 8589934592) 1048576 65536
      (.regmem (plainOs 1 4294967296) 1048576 131072 (.opened 0 3) ?_) ?_) trivial, ?_⟩
  · simp
  · decide +kernel
  · decide +kernel

end Fgds.Release
