import Fgds.Descriptors
import Fgds.GpuMap
import Fgds.Lib.Runs

/-!
# Pins

Runs of the module: buffers are made by `mmap`, mapped by MAP with any answers of the
allocator, the driver and the memory management, released by UNMAP; and the driver reclaims
any pin it still holds by calling back with the `p2p_vmap` it was given.

Both UNMAP and the callback release the `p2p_vmap`; the buffer keeps its pointer after a
callback, and a MAP that fails early frees it a second time. A second MAP overwrites the
pointer, and the failure paths after the pinning keep the pin.

* `Inv.mapInner`, `Inv.unmap_iff`: MAP and UNMAP under the condition `Ok`;
* `pins_once`: runs that meet it are sound, and the next step keeps that if and only if it
  meets it too;
* `reclaimed_then_unmapped`: MAP, callback, UNMAP.
-/

namespace Fgds.Pins

open Fgds.Lib.CInt Fgds.Lib.Alloc Fgds.Lib.Runs Fgds.Device Fgds.Remap Fgds.KernelHeap Fgds.GpuMap
open Fgds.KernelMap hiding fgdsMapDevAddrInner fgdsMapDevAddr mapOut
open KernelHeap.Kernel

/-! ## Steps -/

inductive Action where
  | mmap (dev : Option FgdsDev) (kzalloc : Bool) (start stop : Nat)
  | map (p : Platform) (env : MapEnv) (i devaddr devLen length : Nat)
  | callback (t : Nat)
  | unmap (i : Nat)

def step (k : Kernel) : Action → Kernel
  | .mmap dev kzalloc start stop => (fgdsSetupMmapBuffer k dev kzalloc start stop).2.2
  | .map p env i devaddr devLen length => (fgdsMapDevAddr p env k i devaddr devLen length).kernel
  | .callback t => forceReleaseGpuMemory k t
  | .unmap i => fgdsMbufferPut k i

/-- MAP and UNMAP are about a buffer that exists; the driver calls back for pages that it
still holds. -/
def Possible (k : Kernel) : Action → Prop
  | .mmap _ _ _ _ => True
  | .map _ _ i _ _ _ => Alive k i
  | .callback t => (∃ i, k.heap.kind t = some ⟨.table, i⟩) ∧ k.heap.frees t = 0
  | .unmap i => Alive k i

def fgdsModule : System Kernel Action where
  init := .loaded
  step := step
  possible := Possible

/-- The condition on a step. A MAP of a buffer with a dangling `p2p_vmap` gets as far as the
allocation of a new one; the driver calls back with a `p2p_vmap` that exists; at an UNMAP the
buffer's `p2p_vmap` exists, and everything that was obtained for the buffer and not yet
released hangs on it. -/
def Ok (k : Kernel) : Action → Prop
  | .mmap _ _ _ _ => True
  | .map _ env i devaddr devLen length =>
    (k.bufs i).vma = true → length < devaddr → Dangling k i →
      ∃ dev va, PassesChecks env (k.bufs i) devLen dev va
  | .callback t => k.heap.frees (k.callback t) = 0
  | .unmap i =>
    ((k.bufs i).remap = true → ¬ Dangling k i) ∧
      ∀ o c, k.heap.kind o = some c → c.owner = i → c.kind.isDescriptor = true →
        k.heap.frees o = 0 →
        (k.bufs i).remap = true ∧ ∃ m, (k.bufs i).map = some m ∧ o ∈ released k m

/-! ## MAP -/

section Map

variable {k : Kernel} {i : Nat}

theorem Inv.withPages (h : Inv k) (i : Nat) : Inv (withPages k i) := by
  have halloc := (h.kmalloc i (Or.inl rfl : Kind.devPageAddrs = .devPageAddrs ∨ _)).kmalloc i
    (Or.inr rfl : Kind.ppages = .devPageAddrs ∨ Kind.ppages = .ppages)
  apply halloc.setBuf
  intro halive
  have hbuf := halloc.bufs i halive
  refine ⟨hbuf.ref, hbuf.map, hbuf.addrs, fun q hq => ?_⟩
  cases hq
  exact (Heap.alloc_kind _ _ _).trans (if_pos rfl)

theorem Inv.withMap (h : Inv k) (hi : Alive k i) : Inv (withMap k i) := by
  have hp := h.withPages i
  have halloc : Inv ((KernelHeap.withPages k i).kmalloc .vmap i) :=
    ⟨hp.toDescInv.alloc (Or.inl rfl) fun _ => hi.2, hp.bufs_alloc (by simp) rfl rfl⟩
  apply halloc.setBuf
  intro halive
  have hbuf := halloc.bufs i halive
  refine ⟨hbuf.ref, fun m hm => ?_, hbuf.addrs, hbuf.ppages⟩
  cases hm
  exact (Heap.alloc_kind _ _ _).trans (if_pos rfl)

/-- A MAP between the last allocation and the end: the buffer has a new `p2p_vmap` `m`. -/
structure Building (k : Kernel) (i m : Nat) : Prop where
  inv : Inv k
  alive : Alive k i
  map : (k.bufs i).map = some m
  vmap : k.heap.kind m = some ⟨.vmap, i⟩
  vmapLive : k.heap.frees m = 0
  region : k.heap.kind (m + 1) = some ⟨.region, i⟩
  regionLive : k.heap.frees (m + 1) = 0

theorem Inv.withRegion (h : Inv k) (hi : Alive k i) :
    Building (withRegion k i) i (k.heap.next + 2) ∧
      (withRegion k i).heap.kind k.heap.next = some ⟨.devPageAddrs, i⟩ ∧
      (withRegion k i).heap.next = k.heap.next + 4 ∧
      (withRegion k i).data (k.heap.next + 2) = some (k.heap.next + 3) := by
  have hm := h.withMap hi
  have hvmap : (KernelHeap.withMap k i).heap.kind (k.heap.next + 2) = some ⟨.vmap, i⟩ :=
    (Heap.alloc_kind _ _ _).trans (if_pos rfl)
  have hdesc := hm.toDescInv.allocRegion hvmap rfl (h.blank _ (by omega)) hi.2
  have hunborn : ∀ o, k.heap.next ≤ o → k.heap.frees o = 0 := fun o ho => (k.heap.unborn o ho).2
  refine ⟨⟨⟨hdesc, hm.bufs_alloc (c := ⟨.region, i⟩) (by simp) rfl rfl⟩, hi.withMap.kmalloc _ _,
    ?_, Heap.alloc_kind_old hvmap _, hunborn _ (by omega),
    (Heap.alloc_kind _ _ _).trans (if_pos rfl), hunborn _ (by omega)⟩, ?_, rfl, ?_⟩
  · simp [KernelHeap.withRegion, KernelHeap.withMap]
  · refine Heap.alloc_kind_old (Heap.alloc_kind_old (Heap.alloc_kind_old ?_ _) _) _
    exact (Heap.alloc_kind _ _ _).trans (if_pos rfl)
  · exact Function.update_self _ _ _

variable {m : Nat}

theorem Building.pin (h : Building k i m) (hnext : k.heap.next = m + 2)
    (hd : k.data m = some (m + 1)) : Building (k.pin i m (m + 1)) i m :=
  ⟨⟨h.inv.toDescInv.pin h.vmap h.region hnext hd h.alive.2,
      h.inv.bufs_alloc (c := ⟨.table, i⟩) (by simp) rfl rfl⟩,
    h.alive.kmalloc _ _, h.map, Heap.alloc_kind_old h.vmap _, h.vmapLive,
    Heap.alloc_kind_old h.region _, h.regionLive⟩

theorem Building.setBuf (h : Building k i m) {b : Buf} (hb : BufInv k.heap i b)
    (hmap : b.map = some m) : Building (k.setBuf i b) i m :=
  ⟨h.inv.setBuf fun _ => hb, h.alive, by simpa using hmap, h.vmap, h.vmapLive, h.region,
    h.regionLive⟩

/-- The label `out`, once `gd` and `map` are freed. -/
theorem Inv.out {gd addrs : Option Nat} (hb : BufInv k.heap i (k.bufs i))
    (h : Inv ((k.kfreeOpt gd).kfreeOpt (k.bufs i).map))
    (ha : ∀ a, addrs = some a → k.heap.kind a = some ⟨.devPageAddrs, i⟩) :
    Inv (mapOut k i gd addrs) := by
  have hmap : Inv (((k.kfreeOpt gd).kfreeOpt (k.bufs i).map).setMap i none) := by
    apply h.setBuf
    intro halive
    have hbuf := h.bufs i halive
    exact ⟨hbuf.ref, nofun, hbuf.addrs, hbuf.ppages⟩
  have hfree : Inv ((((k.kfreeOpt gd).kfreeOpt (k.bufs i).map).setMap i none).kfreeOpt
      (k.bufs i).ppages) := by
    apply hmap.kfreeOpt
    intro q hq
    exact ⟨⟨.ppages, i⟩, by simpa using hb.ppages q hq, Or.inr rfl⟩
  have hpages : Inv (((((k.kfreeOpt gd).kfreeOpt (k.bufs i).map).setMap i none).kfreeOpt
      (k.bufs i).ppages).setPpages i none) := by
    apply hfree.setBuf
    intro halive
    have hbuf := hfree.bufs i halive
    exact ⟨hbuf.ref, hbuf.map, hbuf.addrs, nofun⟩
  have hout : mapOut k i gd addrs = (((((k.kfreeOpt gd).kfreeOpt (k.bufs i).map).setMap i
      none).kfreeOpt (k.bufs i).ppages).setPpages i none).kfreeOpt addrs := by
    simp [mapOut]
  rw [hout]
  apply hpages.kfreeOpt
  intro a haddrs
  exact ⟨⟨.devPageAddrs, i⟩, by simpa using ha a haddrs, Or.inl rfl⟩

/-- The label `out` before a `p2p_vmap` was allocated: the one that the buffer has is freed. -/
theorem Inv.outEarly (h : Inv k) (hi : Alive k i) (hd : ¬ Dangling k i) {addrs : Option Nat}
    (ha : ∀ a, addrs = some a → k.heap.kind a = some ⟨.devPageAddrs, i⟩) :
    Inv (mapOut k i none addrs) := by
  refine Inv.out (h.bufs i hi) ?_ ha
  cases hmap : (k.bufs i).map with
  | none => exact h
  | some m =>
    have hmk := (h.bufs i hi).map m hmap
    have hz : k.heap.frees m = 0 := by
      by_contra hne
      exact hd ⟨m, hmap, hne⟩
    have hf : Frees k i [m] := by
      refine ⟨by simp, by simpa using hz, ?_⟩
      simp [hmk, Kind.isDescriptor]
    exact h.frees hf rfl (by simp) (by simp) hmk (by simp) (fun _ _ => rfl) (fun _ _ => rfl) rfl
      rfl

/-- The label `out` with a new `p2p_vmap` and its region: both are freed, the pin stays. -/
theorem Building.out (h : Building k i m) {a : Nat}
    (ha : k.heap.kind a = some ⟨.devPageAddrs, i⟩) :
    Inv (mapOut k i (some (m + 1)) (some a)) := by
  refine Inv.out (h.inv.bufs i h.alive) ?_ fun a' heq => Option.some.inj heq ▸ ha
  have hf : Frees k i [m + 1, m] := by
    refine ⟨by simp, by simp [h.vmapLive, h.regionLive], ?_⟩
    simp [h.vmap, h.region, Kind.isDescriptor]
  rw [h.map]
  exact h.inv.frees hf rfl (by simp) (by simp) h.vmap (by simp) (fun _ _ => rfl) (fun _ _ => rfl)
    rfl rfl

theorem Building.pinned (h : Building k i m) (env : MapEnv) (devaddr devLen : Nat)
    (hnext : k.heap.next = m + 2) (hd : k.data m = some (m + 1)) :
    Building (pinned env k i devaddr devLen m (m + 1)) i m := by
  unfold KernelHeap.pinned
  split
  · exact h.pin hnext hd
  · exact h

theorem pinned_kind (env : MapEnv) (devaddr devLen : Nat) {o gd : Nat} {c : Obj}
    (ho : k.heap.kind o = some c) :
    (KernelHeap.pinned env k i devaddr devLen m gd).heap.kind o = some c := by
  unfold KernelHeap.pinned
  split
  · exact Heap.alloc_kind_old ho _
  · exact ho

theorem Building.setAddrs (h : Building k i m) {a : Nat}
    (ha : k.heap.kind a = some ⟨.devPageAddrs, i⟩) : Building (k.setAddrs i (some a)) i m := by
  have hbuf := h.inv.bufs i h.alive
  exact h.setBuf ⟨hbuf.ref, hbuf.map, fun a' heq => Option.some.inj heq ▸ ha, hbuf.ppages⟩ h.map

theorem Building.setRemap (h : Building k i m) (r : Bool) : Building (k.setRemap i r) i m := by
  have hbuf := h.inv.bufs i h.alive
  exact h.setBuf ⟨hbuf.ref, hbuf.map, hbuf.addrs, hbuf.ppages⟩ h.map

theorem Building.mapPages (h : Building k i m) {a : Nat}
    (ha : k.heap.kind a = some ⟨.devPageAddrs, i⟩) (hnext : k.heap.next = m + 2)
    (hd : k.data m = some (m + 1)) (p : Platform) (env : MapEnv) (dev : FgdsDev)
    (va devaddr devLen : Nat) :
    Inv (mapPages p env k i dev va devaddr devLen a m (m + 1)).kernel := by
  have hpin := h.pinned env devaddr devLen hnext hd
  have ha' : (KernelHeap.pinned env k i devaddr devLen m (m + 1)).heap.kind a =
      some ⟨.devPageAddrs, i⟩ := pinned_kind env devaddr devLen ha
  have haddrs := hpin.setAddrs ha'
  cases hread : readPages (gotPages env devaddr devLen).2 (nrDevPages devLen) with
  | oops =>
    rw [mapPages_oops hread]
    exact hpin.inv
  | missing =>
    rw [mapPages_missing hread]
    exact hpin.out ha'
  | addrs l =>
    by_cases hbar : l.any (badOffset dev) = true
    · rw [mapPages_outside hread hbar]
      exact haddrs.out ha'
    by_cases hins : (env.insertPages (k.bufs i).cVaddr (hostPages p dev va devLen l)).1 ≠ 0
    · rw [mapPages_refused hread hbar hins]
      exact haddrs.out ha'
    · rw [mapPages_done hread hbar hins]
      exact (haddrs.setRemap true).inv

theorem not_dangling_withMap : ¬ Dangling (KernelHeap.withMap k i) i := by
  rintro ⟨m, hm, hz⟩
  simp only [KernelHeap.withMap, setMap_self, Option.some.injEq] at hm
  apply hz
  rw [← hm]
  exact (k.heap.unborn _ (by omega)).2

theorem Inv.mapInner (h : Inv k) (hi : Alive k i) (p : Platform) (env : MapEnv)
    (devaddr devLen : Nat)
    (hok : Dangling k i → ∃ dev va, PassesChecks env (k.bufs i) devLen dev va) :
    Inv (fgdsMapDevAddrInner p env k i devaddr devLen).kernel := by
  by_cases hpass : ∃ dev va, PassesChecks env (k.bufs i) devLen dev va
  · obtain ⟨dev, va, hpass⟩ := hpass
    by_cases hmem : env.kmallocMap = true ∧ env.kmallocRegion = true
    · rw [fgdsMapDevAddrInner_reaches ⟨hpass, hmem.1, hmem.2⟩]
      obtain ⟨hbuild, ha, hnext, hd⟩ := h.withRegion hi
      exact hbuild.mapPages ha hnext hd p env dev va devaddr devLen
    · obtain ⟨k', hstop, hout⟩ := fgdsMapDevAddrInner_noMemory (p := p) devaddr hpass hmem
      rw [hout]
      have hfirst : (k.heap.alloc ⟨.devPageAddrs, i⟩).kind k.heap.next =
          some ⟨.devPageAddrs, i⟩ := (Heap.alloc_kind _ _ _).trans (if_pos rfl)
      cases hstop with
      | map =>
        have hnull : Inv ((KernelHeap.withPages k i).setMap i none) := by
          apply (h.withPages i).setBuf
          intro halive
          have hbuf := (h.withPages i).bufs i halive
          exact ⟨hbuf.ref, nofun, hbuf.addrs, hbuf.ppages⟩
        refine hnull.outEarly hi.withPages (fun hdang => ?_) fun a heq => ?_
        · obtain ⟨m, hm, _⟩ := hdang
          simp at hm
        · cases heq
          exact Heap.alloc_kind_old hfirst _
      | region =>
        refine (h.withMap hi).outEarly hi.withMap not_dangling_withMap fun a heq => ?_
        cases heq
        exact Heap.alloc_kind_old (Heap.alloc_kind_old hfirst _) _
  · obtain ⟨k', ret, _, hstop, hout⟩ := fgdsMapDevAddrInner_refused (p := p) devaddr
      fun dev va hp => hpass ⟨dev, va, hp⟩
    have hd : ¬ Dangling k i := fun hdang => hpass (hok hdang)
    rw [hout]
    cases hstop with
    | checks => exact h.outEarly hi hd nofun
    | pages =>
      have halloc := h.kmalloc i (Or.inl rfl : Kind.devPageAddrs = .devPageAddrs ∨ _)
      have hnull : Inv ((k.kmalloc .devPageAddrs i).setPpages i none) := by
        apply halloc.setBuf
        intro halive
        have hbuf := halloc.bufs i halive
        exact ⟨hbuf.ref, hbuf.map, hbuf.addrs, nofun⟩
      refine hnull.outEarly (hi.kmalloc _ _) (fun hdang => hd ?_) fun a heq => ?_
      · obtain ⟨m, hm, hz⟩ := hdang
        exact ⟨m, by simpa using hm, hz⟩
      · cases heq
        exact (Heap.alloc_kind _ _ _).trans (if_pos rfl)

theorem mapOut_frees_map {addrs : Option Nat} (hm : (k.bufs i).map = some m)
    (hlt : m < k.heap.next) : k.heap.frees m < (mapOut k i none addrs).heap.frees m := by
  rw [mapOut_heap, hm, Heap.freeOpt_none, Heap.freeOpt_some]
  have hself := Heap.free_frees hlt m
  rw [if_pos rfl] at hself
  have h1 := Heap.le_freeOpt_frees (k.heap.free m) (k.bufs i).ppages m
  have h2 := Heap.le_freeOpt_frees ((k.heap.free m).freeOpt (k.bufs i).ppages) addrs m
  omega

/-- A MAP that is refused frees the dangling `p2p_vmap` of its buffer again. -/
theorem map_twice_freed (h : Inv k) (hi : Alive k i) (p : Platform) (env : MapEnv)
    (devaddr devLen : Nat) (hd : Dangling k i)
    (hpass : ∀ dev va, ¬ PassesChecks env (k.bufs i) devLen dev va) :
    ¬ Sound (fgdsMapDevAddrInner p env k i devaddr devLen).kernel := by
  obtain ⟨m, hm, hz⟩ := hd
  obtain ⟨k', ret, _, hstop, hout⟩ := fgdsMapDevAddrInner_refused (p := p) devaddr hpass
  have hmk := (h.bufs i hi).map m hm
  have hlt := Heap.lt_of_kind hmk
  rw [hout]
  intro hsound
  have htwice : k.heap.frees m < k'.heap.frees m ∧ k'.heap.kind m = some ⟨.vmap, i⟩ := by
    cases hstop with
    | checks =>
      refine ⟨mapOut_frees_map hm hlt, ?_⟩
      simpa [mapOut_heap] using hmk
    | pages =>
      have hm' : (((k.kmalloc .devPageAddrs i).setPpages i none).bufs i).map = some m := by
        rw [setPpages_self]
        exact hm
      have hlt' : m < ((k.kmalloc .devPageAddrs i).setPpages i none).heap.next :=
        Nat.lt_succ_of_lt hlt
      have hsame : ((k.kmalloc .devPageAddrs i).setPpages i none).heap.frees m =
          k.heap.frees m := by
        rw [setPpages_heap, kmalloc_heap, Heap.alloc_frees]
      refine ⟨hsame ▸ mapOut_frees_map hm' hlt', ?_⟩
      rw [mapOut_heap]
      simp only [Heap.freeOpt_kind, setPpages_heap, kmalloc_heap]
      exact Heap.alloc_kind_old hmk _
  have hle := hsound.once m _ htwice.2 rfl
  have hlt' := htwice.1
  simp only [stopped] at hle
  omega

end Map

/-! ## UNMAP -/

/-- The descriptors that UNMAP releases. -/
def unmapped (k : Kernel) (i : Nat) : List Nat :=
  if (k.bufs i).remap then
    match (k.bufs i).map with
    | none => []
    | some m => released k m
  else []

section Unmap

variable {k : Kernel} {i : Nat}

theorem mem_unmapped {o : Nat} : o ∈ unmapped k i ↔
    (k.bufs i).remap = true ∧ ∃ m, (k.bufs i).map = some m ∧ o ∈ released k m := by
  unfold unmapped
  by_cases hr : (k.bufs i).remap = true
  · cases hm : (k.bufs i).map with
    | none => simp [hr]
    | some m => simp [hr]
  · simp [hr]

theorem DescInv.releaseMapped (h : DescInv k)
    (hmap : ∀ m, (k.bufs i).map = some m → k.heap.kind m = some ⟨.vmap, i⟩)
    (hd : (k.bufs i).remap = true → ¬ Dangling k i) :
    DescInv (releaseMapped k i) ∧ Frees k i (unmapped k i) ∧
      (releaseMapped k i).heap = k.heap.freeAll (unmapped k i) ∧
      ∀ j, j ≠ i → (releaseMapped k i).bufs j = k.bufs j := by
  unfold KernelHeap.releaseMapped unmapped
  split
  · rename_i hr
    cases hm : (k.bufs i).map with
    | none =>
      refine ⟨h.same (Same.refl _) rfl rfl rfl, ⟨by simp, by simp, by simp⟩, rfl,
        fun j hj => ?_⟩
      simp [fgdsReleaseCore, setMap, setRemap, hj]
    | some m =>
      have hz : k.heap.frees m = 0 := by
        by_contra hne
        exact hd hr ⟨m, hm, hne⟩
      have hrel := h.release (hmap m hm) hz
      obtain ⟨hheap, hbufs, _⟩ := h.releaseCore (hmap m hm) hz
      refine ⟨hrel.same (Same.refl _) rfl rfl rfl, (h.released (hmap m hm) hz).1, hheap,
        fun j hj => ?_⟩
      simp [setMap, setRemap, hj, hbufs]
  · exact ⟨h, ⟨by simp, by simp, by simp⟩, rfl, fun _ _ => rfl⟩

/-- A buffer is freed after all its descriptors. -/
theorem DescInv.kfreeBuffer (h : DescInv k) (hi : k.heap.kind i = some ⟨.mbuffer, i⟩)
    (hdone : ∀ o c, k.heap.kind o = some c → c.owner = i → c.kind.isDescriptor = true →
      k.heap.frees o = 1) : DescInv (k.kfree i) := by
  have hlt := Heap.lt_of_kind hi
  have hkind : (k.kfree i).heap.kind = k.heap.kind := Heap.free_kind k.heap i
  have hfrees : ∀ {o : Nat} {c : Obj}, k.heap.kind o = some c → c.kind ≠ .mbuffer →
      (k.kfree i).heap.frees o = k.heap.frees o := by
    intro o c ho hc
    apply Heap.free_frees_other
    rintro rfl
    rw [hi] at ho
    cases ho
    exact hc rfl
  have hdesc : ∀ {c : Obj}, c.kind.isDescriptor = true → c.kind ≠ .mbuffer := by
    intro c hc heq
    rw [heq] at hc
    cases hc
  refine ⟨⟨?_, fun o c ho hc => ?_, fun j hj hjf o c ho howner hc => ?_⟩, fun o ho => ?_,
    fun m j hm hz g hg => ?_, fun g j hg hz t ht => ?_, fun t j ht hz => ?_⟩
  · exact (Heap.free_fault hlt).trans h.sound.fault
  · rw [hkind] at ho
    rw [hfrees ho (hdesc hc)]
    exact h.sound.once o c ho hc
  · rw [hkind] at hj ho
    rw [hfrees ho (hdesc hc)]
    by_cases hji : j = i
    · exact hdone o c ho (howner.trans hji) hc
    · rw [kfree_heap, Heap.free_frees_other k.heap hji] at hjf
      exact h.sound.done j hj hjf o c ho howner hc
  · rw [kfree_heap, Heap.free_next] at ho
    exact h.blank o ho
  · rw [hkind] at hm ⊢
    rw [hfrees hm (by simp)] at hz
    obtain ⟨heq, hgk, hgz⟩ := h.vmap m j hm hz g hg
    exact ⟨heq, hgk, (hfrees hgk (by simp)).trans hgz⟩
  · rw [hkind] at hg ⊢
    rw [hfrees hg (by simp)] at hz
    obtain ⟨heq, htk, htz⟩ := h.region g j hg hz t ht
    exact ⟨heq, htk, (hfrees htk (by simp)).trans htz⟩
  · rw [hkind] at ht ⊢
    rw [hfrees ht (by simp)] at hz
    obtain ⟨m, heq, hc, hk, himp⟩ := h.table t j ht hz
    refine ⟨m, heq, hc, hk, fun hz' => himp ?_⟩
    rwa [hfrees hk (by simp)] at hz'

/-- In `k'` the buffer `i` of `k` has been taken apart: what the release frees has been freed. -/
structure TakenApart (k k' : Kernel) (i : Nat) : Prop where
  desc : DescInv k'
  kind : k'.heap.kind = k.heap.kind
  frees : ∀ o c, k.heap.kind o = some c → c.kind ≠ .devPageAddrs → c.kind ≠ .ppages →
    k'.heap.frees o = k.heap.frees o + if o ∈ unmapped k i then 1 else 0
  bufs : ∀ j, j ≠ i → k'.bufs j = k.bufs j

/-- `fgds_mbuffer_free`, for a buffer whose `p2p_vmap` is not dangling. -/
theorem DescInv.mbufferFree (h : DescInv k)
    (hmap : ∀ m, (k.bufs i).map = some m → k.heap.kind m = some ⟨.vmap, i⟩)
    (haddrs : ∀ a, (k.bufs i).devPageAddrs = some a → k.heap.kind a = some ⟨.devPageAddrs, i⟩)
    (hpages : ∀ q, (k.bufs i).ppages = some q → k.heap.kind q = some ⟨.ppages, i⟩)
    (hd : (k.bufs i).remap = true → ¬ Dangling k i) : TakenApart k (fgdsMbufferFree k i) i := by
  obtain ⟨hrel, hf, hheap, hbufs⟩ := h.releaseMapped hmap hd
  have hkind : (KernelHeap.releaseMapped k i).heap.kind = k.heap.kind := by
    rw [hheap, Heap.freeAll_kind]
  have hs : Same (KernelHeap.releaseMapped k i).heap (fgdsMbufferFree k i).heap := by
    apply Same.trans
    · apply Same.freeOpt
      intro a ha
      exact ⟨_, (congrFun hkind a).trans (haddrs a ha), Or.inl rfl⟩
    · apply Same.freeOpt
      intro q hq
      refine ⟨⟨.ppages, i⟩, ?_, Or.inr rfl⟩
      rw [Heap.freeOpt_kind]
      exact (congrFun hkind q).trans (hpages q hq)
  refine ⟨hrel.same hs rfl rfl rfl, ?_, fun o c ho h1 h2 => ?_, fun j hj => ?_⟩
  · simp [fgdsMbufferFree, hkind]
  · rw [hs.frees o c ((congrFun hkind o).trans ho) h1 h2]
    exact hf.frees hheap o
  · simp [fgdsMbufferFree, setAddrs, setPpages, hj, hbufs j hj]

/-- The buffer without its last reference. -/
def unref (k : Kernel) (i : Nat) : Kernel :=
  k.setBuf i { k.bufs i with ref := (k.bufs i).ref - 1 }

theorem unref_self : (unref k i).bufs i = { k.bufs i with ref := (k.bufs i).ref - 1 } := by
  rw [unref, setBuf_bufs, Function.update_self]

theorem unref_dangling : Dangling (unref k i) i ↔ Dangling k i := by
  rw [Dangling, Dangling, unref_self]
  rfl

theorem mem_unmapped_unref {o : Nat} : o ∈ unmapped (unref k i) i ↔ o ∈ unmapped k i := by
  rw [mem_unmapped, mem_unmapped, unref_self]
  rfl

/-- The last reference: the buffer is taken apart and freed. -/
theorem Inv.put_eq (h : Inv k) (hi : Alive k i) :
    fgdsMbufferPut k i = (fgdsMbufferFree (unref k i) i).kfree i := by
  have href := (h.bufs i hi).ref
  unfold fgdsMbufferPut
  dsimp only
  rw [if_pos]
  · rfl
  · rw [setBuf_bufs, Function.update_self, href]
    rfl

/-- UNMAP of a buffer with a dangling `p2p_vmap` uses it. -/
theorem mbufferFree_fault (hr : (k.bufs i).remap = true) (hd : Dangling k i) :
    (fgdsMbufferFree k i).heap.fault = true := by
  obtain ⟨m, hm, hz⟩ := hd
  have hrel : (KernelHeap.releaseMapped k i).heap.fault = true := by
    rw [KernelHeap.releaseMapped, if_pos hr, hm]
    exact releaseCore_freed hz
  exact Heap.freeOpt_faulted (Heap.freeOpt_faulted hrel _) _

/-- If it is not dangling, UNMAP takes the buffer apart before it frees it. -/
theorem Inv.takenApart (h : Inv k) (hi : Alive k i)
    (hd : (k.bufs i).remap = true → ¬ Dangling k i) :
    TakenApart k (fgdsMbufferFree (unref k i) i) i := by
  have hbuf := h.bufs i hi
  have hdesc : DescInv (unref k i) := h.toDescInv.same (Same.refl _) rfl rfl rfl
  obtain ⟨hdesc', hkind, hfrees, hbufs⟩ := hdesc.mbufferFree
    (by rw [unref_self]; exact hbuf.map) (by rw [unref_self]; exact hbuf.addrs)
    (by rw [unref_self]; exact hbuf.ppages)
    (by rw [unref_self, unref_dangling]; exact hd)
  simp only [mem_unmapped_unref] at hfrees
  refine ⟨hdesc', hkind, hfrees, fun j hj => ?_⟩
  rw [hbufs j hj, unref, setBuf_bufs, Function.update_of_ne hj]

section Freed

variable {k' : Kernel} (ht : TakenApart k k' i) (hi : Alive k i)
include ht hi

theorem TakenApart.alive : k'.heap.kind i = some ⟨.mbuffer, i⟩ := (congrFun ht.kind i).trans hi.1

theorem TakenApart.descriptor {o : Nat} {c : Obj} (ho : k.heap.kind o = some c)
    (hc : c.kind.isDescriptor = true) :
    o ≠ i ∧ k'.heap.frees o = k.heap.frees o + if o ∈ unmapped k i then 1 else 0 := by
  refine ⟨fun heq => ?_, ht.frees o c ho (fun heq => ?_) fun heq => ?_⟩
  · rw [heq, hi.1] at ho
    cases ho
    cases hc
  · rw [heq] at hc
    cases hc
  · rw [heq] at hc
    cases hc

/-- All descriptors of the buffer are freed by then, each once. -/
theorem TakenApart.done (hok : Ok k (.unmap i)) (o : Nat) (c : Obj)
    (ho : k'.heap.kind o = some c) (howner : c.owner = i) (hc : c.kind.isDescriptor = true) :
    k'.heap.frees o = 1 := by
  have hle := ht.desc.sound.once o c ho hc
  rw [ht.kind] at ho
  have hval := (ht.descriptor hi ho hc).2
  by_cases hz : k.heap.frees o = 0
  · rw [if_pos (mem_unmapped.mpr (hok.2 o c ho howner hc hz)), hz] at hval
    exact hval
  · omega

theorem TakenApart.kfree (hok : Ok k (.unmap i)) : DescInv (k'.kfree i) :=
  ht.desc.kfreeBuffer (ht.alive hi) (ht.done hi hok)

/-- A descriptor that the release leaves out is lost with the buffer. -/
theorem TakenApart.mem_unmapped_of_sound (hsound : Sound (k'.kfree i)) {o : Nat} {c : Obj}
    (ho : k.heap.kind o = some c) (howner : c.owner = i) (hc : c.kind.isDescriptor = true)
    (hz : k.heap.frees o = 0) : o ∈ unmapped k i := by
  have hkind : (k'.kfree i).heap.kind = k.heap.kind := (Heap.free_kind _ _).trans ht.kind
  have hfreed : (k'.kfree i).heap.frees i ≠ 0 := by
    rw [kfree_heap, Heap.free_frees (Heap.lt_of_kind (ht.alive hi)), if_pos rfl]
    omega
  have hone := hsound.done i ((congrFun hkind i).trans hi.1) hfreed o c
    ((congrFun hkind o).trans ho) howner hc
  obtain ⟨hne, hval⟩ := ht.descriptor hi ho hc
  rw [kfree_heap, Heap.free_frees_other k'.heap hne, hval, hz] at hone
  by_contra hnot
  rw [if_neg hnot] at hone
  cases hone

/-- The other buffers are as they were. -/
theorem TakenApart.bufInv (h : Inv k) {j : Nat} (hj : Alive (k'.kfree i) j) :
    BufInv (k'.kfree i).heap j ((k'.kfree i).bufs j) := by
  have hji : j ≠ i := by
    rintro rfl
    have hzero := hj.2
    rw [kfree_heap, Heap.free_frees (Heap.lt_of_kind (ht.alive hi)), if_pos rfl] at hzero
    cases hzero
  have hjk : k.heap.kind j = some ⟨.mbuffer, j⟩ := by
    have hkj := hj.1
    rwa [kfree_heap, Heap.free_kind, ht.kind] at hkj
  have hjz : k.heap.frees j = 0 := by
    have hzero := hj.2
    rw [kfree_heap, Heap.free_frees_other k'.heap hji,
      ht.frees j _ hjk (by simp) (by simp)] at hzero
    omega
  rw [kfree_bufs, ht.bufs j hji]
  refine (h.bufs j ⟨hjk, hjz⟩).mono fun o c ho => ?_
  rw [kfree_heap, Heap.free_kind, ht.kind]
  exact ho

end Freed

theorem Inv.unmap_iff (h : Inv k) (hi : Alive k i) :
    (Sound (fgdsMbufferPut k i) ↔ Ok k (.unmap i)) ∧
      (Ok k (.unmap i) → Inv (fgdsMbufferPut k i)) := by
  rw [h.put_eq hi]
  by_cases hbad : (k.bufs i).remap = true ∧ Dangling k i
  · -- the release reads the freed `p2p_vmap`
    have hfault := Heap.free_faulted
      (mbufferFree_fault (by rw [unref_self]; exact hbad.1) (unref_dangling.mpr hbad.2)) i
    refine ⟨iff_of_false (fun hsound => ?_) fun hok => hok.1 hbad.1 hbad.2,
      fun hok => absurd hbad.2 (hok.1 hbad.1)⟩
    have hclean := hsound.fault
    rw [kfree_heap, hfault] at hclean
    cases hclean
  · have hd : (k.bufs i).remap = true → ¬ Dangling k i := fun hr hdang => hbad ⟨hr, hdang⟩
    have ht := h.takenApart hi hd
    refine ⟨⟨fun hsound => ⟨hd, fun o c ho howner hc hz => ?_⟩, fun hok => (ht.kfree hi hok).sound⟩,
      fun hok => ⟨ht.kfree hi hok, fun j hj => ht.bufInv hi h hj⟩⟩
    exact mem_unmapped.mp (ht.mem_unmapped_of_sound hi hsound ho howner hc hz)

end Unmap

/-! ## Runs -/

theorem inv_loaded : Inv .loaded := by
  refine ⟨⟨⟨rfl, nofun, nofun⟩, fun _ _ => rfl, nofun, nofun, nofun⟩, fun i hi => ?_⟩
  cases hi.1

/-- A new buffer. -/
theorem Inv.mmap {k : Kernel} (h : Inv k) (dev : Option FgdsDev) (kzalloc : Bool)
    (start stop : Nat) : Inv (fgdsSetupMmapBuffer k dev kzalloc start stop).2.2 := by
  cases dev with
  | none => exact h
  | some dev =>
    rw [fgdsSetupMmapBuffer]
    split
    · exact h
    · refine ⟨(h.toDescInv.alloc (c := ⟨.mbuffer, k.heap.next⟩) (Or.inr rfl) nofun).same
        (Same.refl _) rfl rfl rfl, fun j hj => ?_⟩
      by_cases hjn : j = k.heap.next
      · subst hjn
        rw [setBuf_bufs, Function.update_self]
        exact ⟨rfl, nofun, nofun, nofun⟩
      · rw [setBuf_bufs, Function.update_of_ne hjn]
        rcases alloc_kind_cases hj.1 with ⟨heq, _⟩ | hold
        · exact absurd heq hjn
        · exact (h.bufs j ⟨hold, hj.2⟩).mono fun o c hc => Heap.alloc_kind_old hc _

/-- A step that meets the condition keeps the invariant, one that does not is not sound. -/
theorem Inv.step {k : Kernel} (h : Inv k) {act : Action} (hp : Possible k act) :
    (Sound (step k act) ↔ Ok k act) ∧ (Ok k act → Inv (step k act)) := by
  have hboth : (Ok k act → Inv (Pins.step k act)) → (¬ Ok k act → ¬ Sound (Pins.step k act)) →
      (Sound (Pins.step k act) ↔ Ok k act) ∧ (Ok k act → Inv (Pins.step k act)) := by
    intro hyes hno
    refine ⟨⟨fun hs => ?_, fun hok => (hyes hok).sound⟩, hyes⟩
    by_contra hok
    exact hno hok hs
  cases act with
  | mmap dev kzalloc start stop =>
    exact hboth (fun _ => h.mmap dev kzalloc start stop) fun hno => absurd trivial hno
  | map p env i devaddr devLen length =>
    have hi : Alive k i := hp
    by_cases hguard : ¬ (k.bufs i).vma ∨ devaddr ≤ length
    · have hsame : Pins.step k (.map p env i devaddr devLen length) = k := by
        simp only [Pins.step, fgdsMapDevAddr, if_pos hguard, stopped]
      rw [hsame]
      refine ⟨iff_of_true h.sound fun hv hl => ?_, fun _ => h⟩
      rcases hguard with hno | hle
      · exact absurd hv hno
      · omega
    · have hinner : Pins.step k (.map p env i devaddr devLen length) =
          (fgdsMapDevAddrInner p env k i devaddr devLen).kernel := by
        simp only [Pins.step, fgdsMapDevAddr, if_neg hguard]
      obtain ⟨hv, hl⟩ := not_or.mp hguard
      rw [not_not] at hv
      refine hboth (fun hok => ?_) fun hno => ?_
      · rw [hinner]
        exact h.mapInner hi p env devaddr devLen (hok hv (by omega))
      · rw [hinner]
        obtain ⟨hd, hpass⟩ : Dangling k i ∧
            ∀ dev va, ¬ PassesChecks env (k.bufs i) devLen dev va := by
          simp only [Ok, not_forall] at hno
          obtain ⟨_, _, hd, hpass⟩ := hno
          exact ⟨hd, by simpa using hpass⟩
        exact map_twice_freed h hi p env devaddr devLen hd hpass
  | callback t =>
    obtain ⟨⟨i, hk⟩, hz⟩ := hp
    obtain ⟨m, _, hcall, hm, _⟩ := h.table t i hk hz
    refine hboth (fun hok => ?_) fun hno hsound => ?_
    · have hlive : k.heap.frees m = 0 := hcall ▸ hok
      rw [Pins.step, forceReleaseGpuMemory, hcall]
      exact h.release hm hlive
    · have hfault := hsound.fault
      rw [Pins.step, forceReleaseGpuMemory, releaseCore_freed hno] at hfault
      cases hfault
  | unmap i => exact h.unmap_iff hp

/-- **Pins.** In every run whose steps meet the condition, each page table, `p2p_vmap` and
`gpu_region` is released at most once, those of a freed buffer exactly once, and none is used
after its release. The next step, a MAP with any answers, a callback for any pin still held,
or an UNMAP, keeps that if and only if it meets the condition. -/
theorem pins_once {k : Kernel} (h : Run fgdsModule Ok k) :
    Sound k ∧ ∀ act, Possible k act → (Sound (step k act) ↔ Ok k act) := by
  have hinv : Inv k := h.inv inv_loaded fun _ _ hinv hp hok => (hinv.step hp).2 hok
  exact ⟨hinv.sound, fun act hp => (hinv.step hp).1⟩

/-- A buffer of 128KB is made and mapped to two GPU pages. -/
def mappedOnce : Kernel :=
  step (step .loaded (.mmap (some movedDev) true 4294967296 4295098368))
    (.map shiftedPlatform grantingEnv 0 1048576 131072 131072)

theorem mappedOnce_run : Run fgdsModule Ok mappedOnce := by
  have hmmap : Run fgdsModule Ok
      (step .loaded (.mmap (some movedDev) true 4294967296 4295098368)) :=
    .step (S := fgdsModule) (.mmap (some movedDev) true 4294967296 4295098368) .init trivial
      trivial
  refine .step (S := fgdsModule) (.map shiftedPlatform grantingEnv 0 1048576 131072 131072) hmmap
    ⟨rfl, rfl⟩ fun _ _ hd => ?_
  obtain ⟨m, hm, _⟩ := hd
  cases hm

/-- An UNMAP right after a MAP. -/
theorem pins_once_unmap :
    Run fgdsModule Ok mappedOnce ∧ Sound (step mappedOnce (.unmap 0)) := by
  have hnext : mappedOnce.heap.next = 6 := by decide +kernel
  have hall : ∀ o < 6, (mappedOnce.heap.kind o).all (fun c =>
      !c.kind.isDescriptor || decide (o ∈ released mappedOnce 3)) = true := by decide +kernel
  have hmap : (mappedOnce.bufs 0).map = some 3 := by decide +kernel
  refine ⟨mappedOnce_run, ((pins_once mappedOnce_run).2 (.unmap 0) ?_).mpr ⟨fun _ hd => ?_,
    fun o c ho _ hc _ => ⟨by decide +kernel, 3, hmap, ?_⟩⟩⟩
  · exact ⟨by decide +kernel, by decide +kernel⟩
  · obtain ⟨m, hm, hz⟩ := hd
    rw [hmap] at hm
    cases hm
    revert hz
    decide +kernel
  · have hlt := Heap.lt_of_kind ho
    have hthis := hall o (hnext ▸ hlt)
    rw [ho] at hthis
    simpa [hc] using hthis

/-- The GPU memory is freed while it is mapped, so the driver calls back, and then the buffer
is unmapped: UNMAP reads the `p2p_vmap` that the callback has freed. -/
theorem reclaimed_then_unmapped :
    Run fgdsModule (fun _ _ => True) (step mappedOnce (.callback 5)) ∧
      Possible (step mappedOnce (.callback 5)) (.unmap 0) ∧
      ¬ Sound (step (step mappedOnce (.callback 5)) (.unmap 0)) := by
  refine ⟨.step (S := fgdsModule) (.callback 5) (mappedOnce_run.mono fun _ _ _ => trivial) ?_
    trivial, ?_, fun hsound => ?_⟩
  · exact ⟨⟨0, by decide +kernel⟩, by decide +kernel⟩
  · exact ⟨by decide +kernel, by decide +kernel⟩
  · have hfault := hsound.fault
    revert hfault
    decide +kernel

end Fgds.Pins
