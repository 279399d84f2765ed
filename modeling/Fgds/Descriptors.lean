import Fgds.KernelHeap

/-!
# Descriptors

A descriptor is an object that a MAP shares with the GPU driver: a `p2p_vmap`, a `gpu_region`
or a page table. It should be released exactly once, at the latest with its buffer, and not be
used afterwards.

* `Sound`: the descriptors are released at most once, and exactly once with their buffer;
* `DescInv`, `Inv`: what the pointers between descriptors and from the buffers say;
* `DescInv.release`: the release of a `p2p_vmap` that was not freed;
* `DescInv.alloc`, `DescInv.allocRegion`, `DescInv.pin`: the allocations of a MAP.
-/

namespace Fgds.Pins

open Fgds.Lib.Alloc Fgds.KernelHeap
open KernelHeap.Kernel

/-- No descriptor was used after its release or released twice, and those of a buffer that
was freed were all released. -/
structure Sound (k : Kernel) : Prop where
  fault : k.heap.fault = false
  once : ∀ o c, k.heap.kind o = some c → c.kind.isDescriptor = true → k.heap.frees o ≤ 1
  done : ∀ i, k.heap.kind i = some ⟨.mbuffer, i⟩ → k.heap.frees i ≠ 0 →
    ∀ o c, k.heap.kind o = some c → c.owner = i → c.kind.isDescriptor = true →
      k.heap.frees o = 1

/-- What the release of the `p2p_vmap` `m` frees, in this order. -/
def released (k : Kernel) (m : Nat) : List Nat :=
  match k.data m with
  | none => [m]
  | some g =>
    match k.pages g with
    | none => [g, m]
    | some t => [t, g, m]

/-- The buffer's `p2p_vmap` was freed. -/
def Dangling (k : Kernel) (i : Nat) : Prop := ∃ m, (k.bufs i).map = some m ∧ k.heap.frees m ≠ 0

/-! ## The invariant -/

/-- The pointers between descriptors. The descriptors of one MAP are allocated one after the
other. -/
structure DescInv (k : Kernel) : Prop where
  sound : Sound k
  blank : ∀ o, k.heap.next ≤ o → k.data o = none
  vmap : ∀ m i, k.heap.kind m = some ⟨.vmap, i⟩ → k.heap.frees m = 0 → ∀ g, k.data m = some g →
    g = m + 1 ∧ k.heap.kind g = some ⟨.region, i⟩ ∧ k.heap.frees g = 0
  region : ∀ g i, k.heap.kind g = some ⟨.region, i⟩ → k.heap.frees g = 0 →
    ∀ t, k.pages g = some t →
    t = g + 1 ∧ k.heap.kind t = some ⟨.table, i⟩ ∧ k.heap.frees t = 0
  table : ∀ t i, k.heap.kind t = some ⟨.table, i⟩ → k.heap.frees t = 0 →
    ∃ m, t = m + 2 ∧ k.callback t = m ∧ k.heap.kind m = some ⟨.vmap, i⟩ ∧
      (k.heap.frees m = 0 → k.data m = some (m + 1) ∧ k.pages (m + 1) = some t)

/-- The pointers of the buffer `i`. -/
structure BufInv (h : Heap Obj) (i : Nat) (b : Buf) : Prop where
  ref : b.ref = 1
  map : ∀ m, b.map = some m → h.kind m = some ⟨.vmap, i⟩
  addrs : ∀ a, b.devPageAddrs = some a → h.kind a = some ⟨.devPageAddrs, i⟩
  ppages : ∀ q, b.ppages = some q → h.kind q = some ⟨.ppages, i⟩

structure Inv (k : Kernel) : Prop extends DescInv k where
  bufs : ∀ i, Alive k i → BufInv k.heap i (k.bufs i)

/-! ## Steps that do not concern descriptors -/

/-- The two heaps have the same buffers and descriptors, with the same history. -/
structure Same (h h' : Heap Obj) : Prop where
  next : h.next ≤ h'.next
  fault : h'.fault = h.fault
  mono : ∀ o c, h.kind o = some c → h'.kind o = some c
  kind : ∀ o c, h'.kind o = some c → c.kind ≠ .devPageAddrs → c.kind ≠ .ppages → h.kind o = some c
  frees : ∀ o c, h.kind o = some c → c.kind ≠ .devPageAddrs → c.kind ≠ .ppages →
    h'.frees o = h.frees o

theorem Same.refl (h : Heap Obj) : Same h h :=
  ⟨Nat.le_refl _, rfl, fun _ _ hc => hc, fun _ _ hc _ _ => hc, fun _ _ _ _ _ => rfl⟩

theorem Same.alloc (h : Heap Obj) {c : Obj} (hc : c.kind = .devPageAddrs ∨ c.kind = .ppages) :
    Same h (h.alloc c) := by
  refine ⟨Nat.le_succ _, rfl, fun o d hd => Heap.alloc_kind_old hd c, fun o d hd h1 h2 => ?_,
    fun _ _ _ _ _ => rfl⟩
  rw [Heap.alloc_kind] at hd
  split at hd
  · cases hd
    exact absurd hc (not_or.mpr ⟨h1, h2⟩)
  · exact hd

theorem Same.free {h : Heap Obj} {o : Nat} {c : Obj} (ho : h.kind o = some c)
    (hc : c.kind = .devPageAddrs ∨ c.kind = .ppages) : Same h (h.free o) := by
  refine ⟨by simp, Heap.free_fault (Heap.lt_of_kind ho), fun o d hd => by simpa using hd,
    fun o d hd _ _ => by simpa using hd, fun o' d hd h1 h2 => ?_⟩
  apply Heap.free_frees_other
  rintro rfl
  rw [ho] at hd
  cases hd
  exact absurd hc (not_or.mpr ⟨h1, h2⟩)

theorem Same.trans {h h' h'' : Heap Obj} (hs : Same h h') (hs' : Same h' h'') : Same h h'' := by
  refine ⟨Nat.le_trans hs.next hs'.next, hs'.fault.trans hs.fault,
    fun o c hc => hs'.mono o c (hs.mono o c hc),
    fun o c hc h1 h2 => hs.kind o c (hs'.kind o c hc h1 h2) h1 h2, fun o c hc h1 h2 => ?_⟩
  rw [hs'.frees o c (hs.mono o c hc) h1 h2, hs.frees o c hc h1 h2]

theorem Same.freeOpt {h : Heap Obj} {q : Option Nat}
    (hq : ∀ o, q = some o → ∃ c, h.kind o = some c ∧
      (c.kind = .devPageAddrs ∨ c.kind = .ppages)) : Same h (h.freeOpt q) := by
  cases q with
  | none => exact Same.refl h
  | some o =>
    obtain ⟨c, hc, hkind⟩ := hq o rfl
    exact Same.free hc hkind

theorem Sound.same {k k' : Kernel} (h : Sound k) (hs : Same k.heap k'.heap) : Sound k' := by
  have hdesc : ∀ {c : Obj}, c.kind.isDescriptor = true →
      c.kind ≠ .devPageAddrs ∧ c.kind ≠ .ppages := by
    intro c hc
    constructor <;> intro heq <;> rw [heq] at hc <;> cases hc
  refine ⟨hs.fault.trans h.fault, fun o c ho hc => ?_, fun i hi hf o c ho howner hc => ?_⟩
  · have hold := hs.kind o c ho (hdesc hc).1 (hdesc hc).2
    rw [hs.frees o c hold (hdesc hc).1 (hdesc hc).2]
    exact h.once o c hold hc
  · have hold := hs.kind o c ho (hdesc hc).1 (hdesc hc).2
    have hbuf := hs.kind i _ hi (by simp) (by simp)
    rw [hs.frees o c hold (hdesc hc).1 (hdesc hc).2]
    rw [hs.frees i _ hbuf (by simp) (by simp)] at hf
    exact h.done i hbuf hf o c hold howner hc

theorem DescInv.same {k k' : Kernel} (h : DescInv k) (hs : Same k.heap k'.heap)
    (hdata : k'.data = k.data) (hpages : k'.pages = k.pages) (hcall : k'.callback = k.callback) :
    DescInv k' := by
  refine ⟨h.sound.same hs, fun o ho => ?_, fun m i hm hf g hg => ?_, fun g i hg hf t ht => ?_,
    fun t i ht hf => ?_⟩
  · rw [hdata]
    exact h.blank o (Nat.le_trans hs.next ho)
  · have hold := hs.kind m _ hm (by simp) (by simp)
    rw [hs.frees m _ hold (by simp) (by simp)] at hf
    rw [hdata] at hg
    obtain ⟨heq, hk, hz⟩ := h.vmap m i hold hf g hg
    exact ⟨heq, hs.mono g _ hk, by rw [hs.frees g _ hk (by simp) (by simp), hz]⟩
  · have hold := hs.kind g _ hg (by simp) (by simp)
    rw [hs.frees g _ hold (by simp) (by simp)] at hf
    rw [hpages] at ht
    obtain ⟨heq, hk, hz⟩ := h.region g i hold hf t ht
    exact ⟨heq, hs.mono t _ hk, by rw [hs.frees t _ hk (by simp) (by simp), hz]⟩
  · have hold := hs.kind t _ ht (by simp) (by simp)
    rw [hs.frees t _ hold (by simp) (by simp)] at hf
    obtain ⟨m, heq, hc, hk, himp⟩ := h.table t i hold hf
    refine ⟨m, heq, hcall ▸ hc, hs.mono m _ hk, fun hz => ?_⟩
    rw [hs.frees m _ hk (by simp) (by simp)] at hz
    rw [hdata, hpages]
    exact himp hz

theorem BufInv.mono {h h' : Heap Obj} {i : Nat} {b : Buf} (hb : BufInv h i b)
    (hm : ∀ o c, h.kind o = some c → h'.kind o = some c) : BufInv h' i b :=
  ⟨hb.ref, fun m e => hm m _ (hb.map m e), fun a e => hm a _ (hb.addrs a e),
    fun q e => hm q _ (hb.ppages q e)⟩

theorem Same.alive {k k' : Kernel} (hs : Same k.heap k'.heap) {i : Nat} :
    Alive k' i ↔ Alive k i := by
  constructor
  · rintro ⟨hk, hf⟩
    have hold := hs.kind i _ hk (by simp) (by simp)
    rw [hs.frees i _ hold (by simp) (by simp)] at hf
    exact ⟨hold, hf⟩
  · rintro ⟨hk, hf⟩
    exact ⟨hs.mono i _ hk, by rw [hs.frees i _ hk (by simp) (by simp), hf]⟩

theorem Inv.same {k k' : Kernel} (h : Inv k) (hs : Same k.heap k'.heap) (hbufs : k'.bufs = k.bufs)
    (hdata : k'.data = k.data) (hpages : k'.pages = k.pages) (hcall : k'.callback = k.callback) :
    Inv k' := by
  refine ⟨h.toDescInv.same hs hdata hpages hcall, fun i hi => ?_⟩
  rw [hbufs]
  exact (h.bufs i (hs.alive.mp hi)).mono hs.mono

theorem Inv.kmalloc {k : Kernel} (h : Inv k) {kind : Kind} (owner : Nat)
    (hk : kind = .devPageAddrs ∨ kind = .ppages) : Inv (k.kmalloc kind owner) :=
  h.same (Same.alloc k.heap hk) rfl rfl rfl rfl

theorem Inv.kfreeOpt {k : Kernel} (h : Inv k) {q : Option Nat}
    (hq : ∀ o, q = some o → ∃ c, k.heap.kind o = some c ∧
      (c.kind = .devPageAddrs ∨ c.kind = .ppages)) : Inv (k.kfreeOpt q) :=
  h.same (Same.freeOpt hq) rfl rfl rfl rfl

theorem Inv.setBuf {k : Kernel} (h : Inv k) {i : Nat} {b : Buf}
    (hb : Alive k i → BufInv k.heap i b) : Inv (k.setBuf i b) := by
  refine ⟨h.toDescInv.same (Same.refl _) rfl rfl rfl, fun j hj => ?_⟩
  by_cases hji : j = i
  · subst hji
    rw [setBuf_bufs, Function.update_self]
    exact hb hj
  · rw [setBuf_bufs, Function.update_of_ne hji]
    exact h.bufs j hj

/-! ## Releasing descriptors -/

/-- Releasing once the descriptors `os`, all for the buffer `i`, of which none was released. -/
structure Frees (k : Kernel) (i : Nat) (os : List Nat) : Prop where
  nodup : os.Nodup
  live : ∀ o ∈ os, k.heap.frees o = 0
  kind : ∀ o ∈ os, ∃ c, k.heap.kind o = some c ∧ c.owner = i ∧ c.kind.isDescriptor = true

section Frees

variable {k k' : Kernel} {i : Nat} {os : List Nat}

theorem Frees.lt (hf : Frees k i os) : ∀ o ∈ os, o < k.heap.next := fun o ho => by
  obtain ⟨c, hc, _⟩ := hf.kind o ho
  exact Heap.lt_of_kind hc

theorem Frees.frees (hf : Frees k i os) (hheap : k'.heap = k.heap.freeAll os) (o : Nat) :
    k'.heap.frees o = k.heap.frees o + if o ∈ os then 1 else 0 := by
  rw [hheap]
  exact Heap.freeAll_frees hf.nodup hf.lt o

/-- The buffer that descriptors are released for has not been freed. -/
theorem Frees.sound (hf : Frees k i os) (h : Sound k) (hheap : k'.heap = k.heap.freeAll os) :
    Sound k' := by
  have hfrees := hf.frees hheap
  have hkind : k'.heap.kind = k.heap.kind := by rw [hheap, Heap.freeAll_kind]
  refine ⟨?_, fun o c ho hc => ?_, fun j hj hjf o c ho howner hc => ?_⟩
  · rw [hheap, Heap.freeAll_fault hf.lt]
    exact h.fault
  · rw [hkind] at ho
    rw [hfrees]
    split
    · rename_i hmem
      rw [hf.live o hmem]
    · exact h.once o c ho hc
  · rw [hkind] at hj ho
    have hjos : j ∉ os := fun hmem => by
      obtain ⟨d, hd, _, hdesc⟩ := hf.kind j hmem
      rw [hj] at hd
      cases hd
      cases hdesc
    rw [hfrees, if_neg hjos, Nat.add_zero] at hjf
    have hone := h.done j hj hjf o c ho howner hc
    have hoos : o ∉ os := fun hmem => by
      rw [hf.live o hmem] at hone
      cases hone
    rw [hfrees, if_neg hoos, hone]

theorem Frees.alive (hf : Frees k i os) (hheap : k'.heap = k.heap.freeAll os) {j : Nat} :
    Alive k' j ↔ Alive k j := by
  have hkind : k'.heap.kind = k.heap.kind := by rw [hheap, Heap.freeAll_kind]
  constructor
  · rintro ⟨hk, hz⟩
    rw [hf.frees hheap] at hz
    exact ⟨hkind ▸ hk, by omega⟩
  · rintro ⟨hk, hz⟩
    have hjos : j ∉ os := fun hmem => by
      obtain ⟨d, hd, _, hdesc⟩ := hf.kind j hmem
      rw [hk] at hd
      cases hd
      cases hdesc
    exact ⟨hkind ▸ hk, by rw [hf.frees hheap, if_neg hjos, hz]⟩

/-- A `p2p_vmap` `m` is released, with its region or without it, and with its page table or
without it. The other descriptors keep their pointers. -/
theorem DescInv.frees (h : DescInv k) {m : Nat} (hf : Frees k i os)
    (hheap : k'.heap = k.heap.freeAll os) (hm : m ∈ os) (hos : ∀ o ∈ os, m ≤ o ∧ o ≤ m + 2)
    (hmk : k.heap.kind m = some ⟨.vmap, i⟩) (htable : m + 2 ∈ os → m + 1 ∈ os)
    (hdata : ∀ m', m' ≠ m → k'.data m' = k.data m')
    (hpages : ∀ g, g ≠ m + 1 ∨ m + 1 ∉ os → k'.pages g = k.pages g)
    (hcall : k'.callback = k.callback) : DescInv k' := by
  have hfrees := hf.frees hheap
  have hkind : k'.heap.kind = k.heap.kind := by rw [hheap, Heap.freeAll_kind]
  have hnext : k'.heap.next = k.heap.next := by rw [hheap, Heap.freeAll_next]
  have hnot : ∀ {o : Nat}, k'.heap.frees o = 0 → k.heap.frees o = 0 ∧ o ∉ os := by
    intro o hz
    rw [hfrees] at hz
    split at hz
    · omega
    · rename_i hmem
      exact ⟨by omega, hmem⟩
  refine ⟨hf.sound h.sound hheap, fun o ho => ?_, fun m' j hm' hz g hg => ?_,
    fun g j hg hz t ht => ?_, fun t j ht hz => ?_⟩
  · rw [hnext] at ho
    have hlt := Heap.lt_of_kind hmk
    rw [hdata o (by omega)]
    exact h.blank o ho
  · obtain ⟨hz, hmem⟩ := hnot hz
    have hne : m' ≠ m := fun heq => hmem (heq ▸ hm)
    rw [hkind] at hm'
    rw [hdata m' hne] at hg
    obtain ⟨heq, hgk, hgz⟩ := h.vmap m' j hm' hz g hg
    refine ⟨heq, hkind ▸ hgk, ?_⟩
    have hgos : g ∉ os := fun hgmem => by
      have hle := hos g hgmem
      rcases (by omega : g = m ∨ g = m + 1 ∨ g = m + 2) with rfl | rfl | rfl
      · rw [hmk] at hgk
        cases hgk
      · omega
      · have hm1 : m' = m + 1 := by omega
        exact hmem (hm1 ▸ htable hgmem)
    rw [hfrees, if_neg hgos, hgz]
  · obtain ⟨hz, hmem⟩ := hnot hz
    rw [hkind] at hg
    have hsame : g ≠ m + 1 ∨ m + 1 ∉ os := by
      by_cases heq : g = m + 1
      · exact Or.inr (heq ▸ hmem)
      · exact Or.inl heq
    rw [hpages g hsame] at ht
    obtain ⟨heq, htk, htz⟩ := h.region g j hg hz t ht
    refine ⟨heq, hkind ▸ htk, ?_⟩
    have htos : t ∉ os := fun htmem => by
      have hle := hos t htmem
      rcases (by omega : t = m ∨ t = m + 1 ∨ t = m + 2) with rfl | rfl | rfl
      · rw [hmk] at htk
        cases htk
      · obtain rfl : g = m := by omega
        rw [hmk] at hg
        cases hg
      · obtain rfl : g = m + 1 := by omega
        exact hmem (htable htmem)
    rw [hfrees, if_neg htos, htz]
  · obtain ⟨hz, hmem⟩ := hnot hz
    rw [hkind] at ht
    obtain ⟨m', heq, hc, hk, himp⟩ := h.table t j ht hz
    refine ⟨m', heq, hcall ▸ hc, hkind ▸ hk, fun hz' => ?_⟩
    obtain ⟨hz', hmem'⟩ := hnot hz'
    have hne : m' ≠ m := fun heq => hmem' (heq ▸ hm)
    rw [hdata m' hne, hpages (m' + 1) (Or.inl (by omega))]
    exact himp hz'

end Frees

theorem Inv.frees {k k' : Kernel} (h : Inv k) {i m : Nat} {os : List Nat} (hf : Frees k i os)
    (hheap : k'.heap = k.heap.freeAll os) (hm : m ∈ os) (hos : ∀ o ∈ os, m ≤ o ∧ o ≤ m + 2)
    (hmk : k.heap.kind m = some ⟨.vmap, i⟩) (htable : m + 2 ∈ os → m + 1 ∈ os)
    (hdata : ∀ m', m' ≠ m → k'.data m' = k.data m')
    (hpages : ∀ g, g ≠ m + 1 ∨ m + 1 ∉ os → k'.pages g = k.pages g)
    (hcall : k'.callback = k.callback) (hbufs : k'.bufs = k.bufs) : Inv k' := by
  refine ⟨h.toDescInv.frees hf hheap hm hos hmk htable hdata hpages hcall, fun j hj => ?_⟩
  rw [hbufs]
  refine (h.bufs j ((hf.alive hheap).mp hj)).mono fun o c ho => ?_
  rw [hheap, Heap.freeAll_kind, ho]

section Released

variable {k : Kernel} {i m : Nat}

theorem mem_released_self (k : Kernel) (m : Nat) : m ∈ released k m := by
  unfold released
  split
  · simp
  · split <;> simp

/-- A `p2p_vmap` that was not freed, and what hangs on it. -/
theorem DescInv.released (h : DescInv k) (hm : k.heap.kind m = some ⟨.vmap, i⟩)
    (hz : k.heap.frees m = 0) :
    Frees k i (released k m) ∧ (∀ o ∈ released k m, m ≤ o ∧ o ≤ m + 2) ∧
      (m + 2 ∈ released k m → m + 1 ∈ released k m) := by
  cases hd : k.data m with
  | none =>
    have hrel : Pins.released k m = [m] := by simp only [Pins.released, hd]
    rw [hrel]
    refine ⟨⟨by simp, by simpa using hz, ?_⟩, by simp, by simp⟩
    simp [hm, Kind.isDescriptor]
  | some g =>
    obtain ⟨rfl, hgk, hgz⟩ := h.vmap m i hm hz g hd
    cases hp : k.pages (m + 1) with
    | none =>
      have hrel : Pins.released k m = [m + 1, m] := by simp only [Pins.released, hd, hp]
      rw [hrel]
      refine ⟨⟨by simp, by simp [hz, hgz], ?_⟩, by simp, by simp⟩
      simp [hm, hgk, Kind.isDescriptor]
    | some t =>
      obtain ⟨rfl, htk, htz⟩ := h.region (m + 1) i hgk hgz t hp
      have hrel : Pins.released k m = [m + 2, m + 1, m] := by simp only [Pins.released, hd, hp]
      rw [hrel]
      refine ⟨⟨by simp, by simp [hz, hgz, htz], ?_⟩, by simp, by simp⟩
      simp [hm, hgk, htk, Kind.isDescriptor]

theorem touch_live (hz : k.heap.frees m = 0) : k.touch m = k := by
  rw [touch, Heap.touch_live hz]

/-- What releasing it does. -/
theorem DescInv.releaseCore (h : DescInv k) (hm : k.heap.kind m = some ⟨.vmap, i⟩)
    (hz : k.heap.frees m = 0) :
    (fgdsReleaseCore k (some m)).heap = k.heap.freeAll (Pins.released k m) ∧
      (fgdsReleaseCore k (some m)).bufs = k.bufs ∧
      (fgdsReleaseCore k (some m)).callback = k.callback ∧
      (∀ m', m' ≠ m → (fgdsReleaseCore k (some m)).data m' = k.data m') ∧
      ∀ g, g ≠ m + 1 ∨ m + 1 ∉ Pins.released k m →
        (fgdsReleaseCore k (some m)).pages g = k.pages g := by
  simp only [fgdsReleaseCore, touch_live hz, Pins.released]
  cases hd : k.data m with
  | none => exact ⟨rfl, rfl, rfl, fun _ _ => rfl, fun _ _ => rfl⟩
  | some g =>
    obtain ⟨rfl, hgk, hgz⟩ := h.vmap m i hm hz g hd
    simp only [touch_live hgz]
    cases hp : k.pages (m + 1) with
    | none =>
      refine ⟨rfl, rfl, rfl, fun m' hne => ?_, fun _ _ => rfl⟩
      exact Function.update_of_ne hne _ _
    | some t =>
      refine ⟨rfl, rfl, rfl, fun m' hne => ?_, fun g hg => ?_⟩
      · exact Function.update_of_ne hne _ _
      · have hne : g ≠ m + 1 := hg.resolve_right (by simp)
        exact Function.update_of_ne hne _ _

theorem DescInv.release (h : DescInv k) (hm : k.heap.kind m = some ⟨.vmap, i⟩)
    (hz : k.heap.frees m = 0) : DescInv (fgdsReleaseCore k (some m)) := by
  obtain ⟨hf, hos, htable⟩ := h.released hm hz
  obtain ⟨hheap, _, hcall, hdata, hpages⟩ := h.releaseCore hm hz
  exact h.frees hf hheap (mem_released_self k m) hos hm htable hdata hpages hcall

theorem Inv.release (h : Inv k) (hm : k.heap.kind m = some ⟨.vmap, i⟩)
    (hz : k.heap.frees m = 0) : Inv (fgdsReleaseCore k (some m)) := by
  obtain ⟨hf, hos, htable⟩ := h.toDescInv.released hm hz
  obtain ⟨hheap, hbufs, hcall, hdata, hpages⟩ := h.toDescInv.releaseCore hm hz
  exact h.frees hf hheap (mem_released_self k m) hos hm htable hdata hpages hcall hbufs

/-- Releasing a `p2p_vmap` that was freed before reads it. -/
theorem releaseCore_freed (hz : k.heap.frees m ≠ 0) :
    (fgdsReleaseCore k (some m)).heap.fault = true := by
  have htouch : (k.touch m).heap.fault = true := Heap.touch_freed hz
  simp only [fgdsReleaseCore]
  apply Heap.free_faulted
  split
  · exact htouch
  · apply Heap.free_faulted
    have hgd := Heap.touch_faulted htouch
    split
    · exact hgd _
    · exact Heap.free_faulted (hgd _) _

end Released

/-! ## Allocating descriptors -/

section Alloc

variable {k : Kernel} {i : Nat}

theorem Sound.alloc {k k' : Kernel} (h : Sound k) {c : Obj} (hheap : k'.heap = k.heap.alloc c)
    (hc : c.kind.isDescriptor = true → k.heap.frees c.owner = 0) : Sound k' := by
  have hfrees : k'.heap.frees = k.heap.frees := by rw [hheap, Heap.alloc_frees]
  have hnew : k.heap.frees k.heap.next = 0 := (k.heap.unborn _ (Nat.le_refl _)).2
  refine ⟨by rw [hheap]; exact h.fault, fun o d ho hd => ?_, fun j hj hjf o d ho howner hd => ?_⟩
  · rw [hheap, Heap.alloc_kind] at ho
    rw [hfrees]
    split at ho
    · rename_i heq
      rw [heq, hnew]
      omega
    · exact h.once o d ho hd
  · rw [hheap, Heap.alloc_kind] at hj ho
    rw [hfrees] at hjf ⊢
    split at hj
    · rename_i heq
      rw [heq] at hjf
      exact absurd hnew hjf
    · split at ho
      · cases ho
        rw [← howner] at hjf
        exact absurd (hc hd) hjf
      · exact h.done j hj hjf o d ho howner hd

/-- What the new heap knows about an object. -/
theorem alloc_kind_cases {h : Heap Obj} {c d : Obj} {o : Nat} (ho : (h.alloc c).kind o = some d) :
    (o = h.next ∧ d = c) ∨ h.kind o = some d := by
  rw [Heap.alloc_kind] at ho
  split at ho
  · exact Or.inl ⟨‹_›, (Option.some.inj ho).symm⟩
  · exact Or.inr ho

/-- A new buffer, or a `p2p_vmap` without a region. -/
theorem DescInv.alloc (h : DescInv k) {c : Obj} (hc : c.kind = .vmap ∨ c.kind = .mbuffer)
    (howner : c.kind.isDescriptor = true → k.heap.frees c.owner = 0) :
    DescInv { k with heap := k.heap.alloc c } := by
  refine ⟨h.sound.alloc rfl howner, fun o ho => ?_, fun m j hm hz g hg => ?_,
    fun g j hg hz t ht => ?_, fun t j ht hz => ?_⟩
  · exact h.blank o (Nat.le_of_succ_le ho)
  · rcases alloc_kind_cases hm with ⟨rfl, _⟩ | hm
    · rw [h.blank _ (Nat.le_refl _)] at hg
      cases hg
    · obtain ⟨heq, hgk, hgz⟩ := h.vmap m j hm hz g hg
      exact ⟨heq, Heap.alloc_kind_old hgk c, hgz⟩
  · rcases alloc_kind_cases hg with ⟨_, rfl⟩ | hg
    · simp at hc
    · obtain ⟨heq, htk, htz⟩ := h.region g j hg hz t ht
      exact ⟨heq, Heap.alloc_kind_old htk c, htz⟩
  · rcases alloc_kind_cases ht with ⟨_, rfl⟩ | ht
    · simp at hc
    · obtain ⟨m, heq, hcall, hk, himp⟩ := h.table t j ht hz
      exact ⟨m, heq, hcall, Heap.alloc_kind_old hk c, himp⟩

variable {m : Nat}

/-- The region of the newest `p2p_vmap`. -/
theorem DescInv.allocRegion (h : DescInv k) (hm : k.heap.kind m = some ⟨.vmap, i⟩)
    (hnext : k.heap.next = m + 1) (hd : k.data m = none) (hi : k.heap.frees i = 0) :
    DescInv (((k.kmalloc .region i).setPages k.heap.next none).setData m (some k.heap.next)) := by
  have hnew : k.heap.frees k.heap.next = 0 := (k.heap.unborn _ (Nat.le_refl _)).2
  have hlt := Heap.lt_of_kind hm
  generalize hk' : ((k.kmalloc .region i).setPages k.heap.next none).setData m
    (some k.heap.next) = k'
  have hheap : k'.heap = k.heap.alloc ⟨.region, i⟩ := by rw [← hk']; rfl
  have hdata : ∀ m', k'.data m' = if m' = m then some k.heap.next else k.data m' := by
    intro m'
    rw [← hk']
    exact Function.update_apply _ _ _ _
  have hpages : ∀ g, k'.pages g = if g = k.heap.next then none else k.pages g := by
    intro g
    rw [← hk']
    exact Function.update_apply _ _ _ _
  have hcall : k'.callback = k.callback := by rw [← hk']; rfl
  refine ⟨h.sound.alloc hheap fun _ => hi, fun o ho => ?_, fun m' j hm' hz g hg => ?_,
    fun g j hg hz t ht => ?_, fun t j ht hz => ?_⟩
  · rw [hheap, Heap.alloc_next] at ho
    rw [hdata, if_neg (by omega)]
    exact h.blank o (by omega)
  · rw [hheap] at hm' hz ⊢
    rcases alloc_kind_cases hm' with ⟨_, hbad⟩ | hm'
    · cases hbad
    · rw [hdata] at hg
      split at hg
      · rename_i hmm
        cases hg
        rw [hmm, hm] at hm'
        cases hm'
        refine ⟨by omega, ?_, hnew⟩
        rw [Heap.alloc_kind, if_pos rfl]
      · obtain ⟨heq, hgk, hgz⟩ := h.vmap m' j hm' hz g hg
        exact ⟨heq, Heap.alloc_kind_old hgk _, hgz⟩
  · rw [hheap] at hg hz ⊢
    rw [hpages] at ht
    split at ht
    · cases ht
    · rename_i hne
      rcases alloc_kind_cases hg with ⟨heq, _⟩ | hg
      · exact absurd heq hne
      · obtain ⟨heq, htk, htz⟩ := h.region g j hg hz t ht
        exact ⟨heq, Heap.alloc_kind_old htk _, htz⟩
  · rw [hheap] at ht hz ⊢
    rcases alloc_kind_cases ht with ⟨_, hbad⟩ | ht
    · cases hbad
    · obtain ⟨m', heq, hc, hk, himp⟩ := h.table t j ht hz
      refine ⟨m', heq, hcall ▸ hc, Heap.alloc_kind_old hk _, fun hz' => ?_⟩
      obtain ⟨hd', hp'⟩ := himp hz'
      have hmm : m' ≠ m := fun heq => by
        rw [heq, hd] at hd'
        cases hd'
      rw [hdata, if_neg hmm, hpages, if_neg (by omega)]
      exact ⟨hd', hp'⟩

/-- The pages pinned for it. -/
theorem DescInv.pin (h : DescInv k) (hm : k.heap.kind m = some ⟨.vmap, i⟩)
    (hg : k.heap.kind (m + 1) = some ⟨.region, i⟩) (hnext : k.heap.next = m + 2)
    (hd : k.data m = some (m + 1)) (hi : k.heap.frees i = 0) :
    DescInv (k.pin i m (m + 1)) := by
  have hnew : k.heap.frees k.heap.next = 0 := (k.heap.unborn _ (Nat.le_refl _)).2
  generalize hk' : k.pin i m (m + 1) = k'
  have hheap : k'.heap = k.heap.alloc ⟨.table, i⟩ := by rw [← hk']; rfl
  have hdata : k'.data = k.data := by rw [← hk']; rfl
  have hpages : ∀ g, k'.pages g = if g = m + 1 then some k.heap.next else k.pages g := by
    intro g
    rw [← hk']
    exact Function.update_apply _ _ _ _
  have hcall : ∀ t, k'.callback t = if t = k.heap.next then m else k.callback t := by
    intro t
    rw [← hk']
    exact Function.update_apply _ _ _ _
  refine ⟨h.sound.alloc hheap fun _ => hi, fun o ho => ?_, fun m' j hm' hz g hg' => ?_,
    fun g j hg' hz t ht => ?_, fun t j ht hz => ?_⟩
  · rw [hheap, Heap.alloc_next] at ho
    rw [hdata]
    exact h.blank o (by omega)
  · rw [hheap] at hm' hz ⊢
    rw [hdata] at hg'
    rcases alloc_kind_cases hm' with ⟨_, hbad⟩ | hm'
    · cases hbad
    · obtain ⟨heq, hgk, hgz⟩ := h.vmap m' j hm' hz g hg'
      exact ⟨heq, Heap.alloc_kind_old hgk _, hgz⟩
  · rw [hheap] at hg' hz ⊢
    rcases alloc_kind_cases hg' with ⟨_, hbad⟩ | hg'
    · cases hbad
    · rw [hpages] at ht
      split at ht
      · rename_i hgm
        cases ht
        rw [hgm, hg] at hg'
        cases hg'
        refine ⟨by omega, ?_, hnew⟩
        rw [Heap.alloc_kind, if_pos rfl]
      · obtain ⟨heq, htk, htz⟩ := h.region g j hg' hz t ht
        exact ⟨heq, Heap.alloc_kind_old htk _, htz⟩
  · rw [hheap] at ht hz ⊢
    rcases alloc_kind_cases ht with ⟨rfl, hc⟩ | ht
    · cases hc
      refine ⟨m, hnext, ?_, Heap.alloc_kind_old hm _, fun _ => ⟨hdata ▸ hd, ?_⟩⟩
      · rw [hcall, if_pos rfl]
      · rw [hpages, if_pos rfl]
    · have htn := Nat.ne_of_lt (Heap.lt_of_kind ht)
      obtain ⟨m', heq, hc, hk, himp⟩ := h.table t j ht hz
      refine ⟨m', heq, ?_, Heap.alloc_kind_old hk _, fun hz' => ?_⟩
      · rw [hcall, if_neg htn, hc]
      · obtain ⟨hd', hp'⟩ := himp hz'
        rw [hdata, hpages, if_neg (by omega)]
        exact ⟨hd', hp'⟩

end Alloc

/-- The pointers of the buffers after the allocation of something else. -/
theorem Inv.bufs_alloc {k k' : Kernel} (h : Inv k) {c : Obj} (hc : c.kind ≠ .mbuffer)
    (hheap : k'.heap = k.heap.alloc c) (hbufs : k'.bufs = k.bufs) (j : Nat) (hj : Alive k' j) :
    BufInv k'.heap j (k'.bufs j) := by
  rw [Alive, hheap] at hj
  rw [hheap, hbufs]
  refine (h.bufs j ⟨?_, hj.2⟩).mono fun o d hd => Heap.alloc_kind_old hd c
  rcases alloc_kind_cases hj.1 with ⟨_, heq⟩ | hold
  · exact absurd (congrArg Obj.kind heq.symm) hc
  · exact hold

end Fgds.Pins
