import Fgds.KernelHeap

/-!
# Which buffers exist

An mmap buffer is made by `mmap` on the device and freed by the UNMAP that drops its last
reference. A MAP frees other objects on its failure paths, and an UNMAP those that hang on
the buffer. Here: neither of them frees another buffer.

* `Frame`, `fgdsMapDevAddr_frame`: what a MAP of the buffer `i` leaves alone;
* `Typed`: no pointer of the module points to a buffer, and a buffer has one reference;
* `Typed.mmap`, `Typed.map`, `Typed.put`: all three keep that; `mmap` adds a buffer, UNMAP
  removes one, MAP does neither.
-/

namespace Fgds.Buffers

open Fgds.Lib.CInt Fgds.Lib.Alloc Fgds.Device Fgds.Remap Fgds.KernelHeap
open Fgds.KernelMap hiding fgdsMapDevAddrInner fgdsMapDevAddr mapOut
open KernelHeap.Kernel

/-! ## What a MAP leaves alone -/

/-- `o` hangs on the buffer. -/
def Ptr (b : Buf) (o : Nat) : Prop :=
  b.map = some o ∨ b.ppages = some o ∨ b.devPageAddrs = some o

/-- What a MAP of the buffer `i` may free: what it allocated itself and what the buffer had. -/
def Own (k : Kernel) (i o : Nat) : Prop := k.heap.next ≤ o ∨ Ptr (k.bufs i) o

/-- Allocated between `k` and `k'`. -/
def New (k k' : Kernel) (o : Nat) : Prop := k.heap.next ≤ o ∧ (k'.heap.kind o).isSome

/-- A part of a MAP of the buffer `i` leads from `k` to `k'`. -/
structure Frame (k : Kernel) (i : Nat) (k' : Kernel) : Prop where
  next : k.heap.next ≤ k'.heap.next
  kind : ∀ o < k.heap.next, k'.heap.kind o = k.heap.kind o
  fresh : ∀ o c, k.heap.next ≤ o → k'.heap.kind o = some c → c.kind ≠ .mbuffer
  frees : ∀ o, ¬ Own k i o → k'.heap.frees o = k.heap.frees o
  other : ∀ j, j ≠ i → k'.bufs j = k.bufs j
  ref : (k'.bufs i).ref = (k.bufs i).ref
  cVaddr : (k'.bufs i).cVaddr = (k.bufs i).cVaddr
  mapLen : (k'.bufs i).mapLen = (k.bufs i).mapLen
  ptr : ∀ o, Ptr (k'.bufs i) o → Ptr (k.bufs i) o ∨ New k k' o
  data : ∀ m g, k'.data m = some g → k.data m = some g ∨ New k k' g
  pages : ∀ g t, k'.pages g = some t → k.pages g = some t ∨ New k k' t

section Frame

variable {k k' : Kernel} {i : Nat}

theorem Frame.refl (k : Kernel) (i : Nat) : Frame k i k where
  next := Nat.le_refl _
  kind _ _ := rfl
  fresh o c ho hc := by
    rw [(k.heap.unborn o ho).1] at hc
    cases hc
  frees _ _ := rfl
  other _ _ := rfl
  ref := rfl
  cVaddr := rfl
  mapLen := rfl
  ptr _ ho := Or.inl ho
  data _ _ hg := Or.inl hg
  pages _ _ ht := Or.inl ht

/-- A step that only changes the heap. -/
theorem Frame.heap (h : Frame k i k') {hp : Heap Obj} (hnext : k'.heap.next ≤ hp.next)
    (hkind : ∀ o < k.heap.next, hp.kind o = k'.heap.kind o)
    (hsome : ∀ o, (k'.heap.kind o).isSome → (hp.kind o).isSome)
    (hfresh : ∀ o c, k.heap.next ≤ o → hp.kind o = some c → c.kind ≠ .mbuffer)
    (hfrees : ∀ o, ¬ Own k i o → hp.frees o = k'.heap.frees o) :
    Frame k i { k' with heap := hp } where
  next := Nat.le_trans h.next hnext
  kind o ho := (hkind o ho).trans (h.kind o ho)
  fresh := hfresh
  frees o ho := (hfrees o ho).trans (h.frees o ho)
  other := h.other
  ref := h.ref
  cVaddr := h.cVaddr
  mapLen := h.mapLen
  ptr o ho := (h.ptr o ho).imp_right fun hn => ⟨hn.1, hsome o hn.2⟩
  data m g hg := (h.data m g hg).imp_right fun hn => ⟨hn.1, hsome g hn.2⟩
  pages g t ht := (h.pages g t ht).imp_right fun hn => ⟨hn.1, hsome t hn.2⟩

theorem Frame.kmalloc (h : Frame k i k') (kind : Kind) (hk : kind ≠ .mbuffer) (owner : Nat) :
    Frame k i (k'.kmalloc kind owner) := by
  have hnext := h.next
  refine h.heap (Nat.le_succ _) (fun o ho => ?_) (fun o ho => ?_) (fun o c ho hc => ?_)
    fun _ _ => rfl
  · rw [Heap.alloc_kind, if_neg (by omega)]
  · rw [Heap.alloc_kind]
    split
    · rfl
    · exact ho
  · rw [Heap.alloc_kind] at hc
    split at hc
    · cases hc
      exact hk
    · exact h.fresh o c ho hc

theorem Frame.kfreeOpt (h : Frame k i k') {q : Option Nat} (hq : ∀ o, q = some o → Own k i o) :
    Frame k i (k'.kfreeOpt q) := by
  cases q with
  | none => exact h
  | some o =>
    refine h.heap (by simp) (fun o' _ => by simp) (fun o' ho' => by simpa using ho')
      (fun o' c ho' hc => ?_) fun o' ho' => ?_
    · rw [Heap.freeOpt_kind] at hc
      exact h.fresh o' c ho' hc
    · apply Heap.free_frees_other
      rintro rfl
      exact ho' (hq _ rfl)

/-- A step that only changes the buffer, and keeps what it is found by. -/
theorem Frame.setBuf (h : Frame k i k') {b : Buf} (href : b.ref = (k.bufs i).ref)
    (hva : b.cVaddr = (k.bufs i).cVaddr) (hlen : b.mapLen = (k.bufs i).mapLen)
    (hptr : ∀ o, Ptr b o → Ptr (k'.bufs i) o ∨ New k k' o) :
    Frame k i (k'.setBuf i b) where
  next := h.next
  kind := h.kind
  fresh := h.fresh
  frees := h.frees
  other j hj := by
    rw [setBuf_bufs, Function.update_of_ne hj]
    exact h.other j hj
  ref := by rwa [setBuf_bufs, Function.update_self]
  cVaddr := by rwa [setBuf_bufs, Function.update_self]
  mapLen := by rwa [setBuf_bufs, Function.update_self]
  ptr o ho := by
    rw [setBuf_bufs, Function.update_self] at ho
    rcases hptr o ho with hold | hn
    · exact h.ptr o hold
    · exact Or.inr hn
  data := h.data
  pages := h.pages

theorem Frame.setMap (h : Frame k i k') {q : Option Nat} (hq : ∀ o, q = some o → New k k' o) :
    Frame k i (k'.setMap i q) := by
  refine h.setBuf h.ref h.cVaddr h.mapLen ?_
  rintro o (hm | hp)
  · exact Or.inr (hq o hm)
  · exact Or.inl (Or.inr hp)

theorem Frame.setPpages (h : Frame k i k') {q : Option Nat} (hq : ∀ o, q = some o → New k k' o) :
    Frame k i (k'.setPpages i q) := by
  refine h.setBuf h.ref h.cVaddr h.mapLen ?_
  rintro o (hm | hp | ha)
  · exact Or.inl (Or.inl hm)
  · exact Or.inr (hq o hp)
  · exact Or.inl (Or.inr (Or.inr ha))

theorem Frame.setAddrs (h : Frame k i k') {q : Option Nat} (hq : ∀ o, q = some o → New k k' o) :
    Frame k i (k'.setAddrs i q) := by
  refine h.setBuf h.ref h.cVaddr h.mapLen ?_
  rintro o (hm | hp | ha)
  · exact Or.inl (Or.inl hm)
  · exact Or.inl (Or.inr (Or.inl hp))
  · exact Or.inr (hq o ha)

theorem Frame.setRemap (h : Frame k i k') (r : Bool) : Frame k i (k'.setRemap i r) :=
  h.setBuf h.ref h.cVaddr h.mapLen fun _ ho => Or.inl ho

theorem Frame.setData (h : Frame k i k') (m : Nat) {q : Option Nat}
    (hq : ∀ o, q = some o → New k k' o) : Frame k i (k'.setData m q) where
  __ := h
  data m' g hg := by
    by_cases hm : m' = m
    · rw [hm, setData_data, Function.update_self] at hg
      exact Or.inr (hq g hg)
    · rw [setData_data, Function.update_of_ne hm] at hg
      exact h.data m' g hg

theorem Frame.setPages (h : Frame k i k') (g : Nat) {q : Option Nat}
    (hq : ∀ o, q = some o → New k k' o) : Frame k i (k'.setPages g q) where
  __ := h
  pages g' t ht := by
    by_cases hg : g' = g
    · rw [hg, setPages_pages, Function.update_self] at ht
      exact Or.inr (hq t ht)
    · rw [setPages_pages, Function.update_of_ne hg] at ht
      exact h.pages g' t ht

theorem New.alloc (h : Frame k i k') (kind : Kind) (owner : Nat) :
    New k (k'.kmalloc kind owner) k'.heap.next := by
  refine ⟨h.next, ?_⟩
  rw [kmalloc_heap, Heap.alloc_kind, if_pos rfl]
  rfl

theorem Frame.pin (h : Frame k i k') (owner map gd : Nat) : Frame k i (k'.pin owner map gd) := by
  have halloc := h.kmalloc .table (by simp) owner
  have hnew := New.alloc h .table owner
  have hpages := halloc.setPages gd (q := some k'.heap.next) fun o ho => by
    cases ho
    exact hnew
  exact { hpages with }

/-- The label `out`; `gd` and the array of addresses are this call's own. -/
theorem Frame.out (h : Frame k i k') {gd addrs : Option Nat}
    (hgd : ∀ o, gd = some o → k.heap.next ≤ o) (haddrs : ∀ o, addrs = some o → k.heap.next ≤ o) :
    Frame k i (mapOut k' i gd addrs) := by
  have hown : ∀ o, Ptr (k'.bufs i) o → Own k i o := fun o ho =>
    (h.ptr o ho).elim Or.inr fun hn => Or.inl hn.1
  have h1 := h.kfreeOpt (q := gd) fun o ho => Or.inl (hgd o ho)
  have h2 := h1.kfreeOpt (q := (k'.bufs i).map) fun o ho => hown o (Or.inl ho)
  have h3 := h2.setMap (q := none) nofun
  have h4 := h3.kfreeOpt (q := (k'.bufs i).ppages) fun o ho => hown o (Or.inr (Or.inl ho))
  have h5 := h4.setPpages (q := none) nofun
  have h6 := h5.kfreeOpt (q := addrs) fun o ho => Or.inl (haddrs o ho)
  simpa [mapOut] using h6

theorem frame_withPages (k : Kernel) (i : Nat) : Frame k i (withPages k i) := by
  have h1 := (Frame.refl k i).kmalloc .devPageAddrs (by simp) i
  have h2 := h1.kmalloc .ppages (by simp) i
  refine h2.setPpages fun o ho => ?_
  cases ho
  exact New.alloc h1 .ppages i

theorem frame_withMap (k : Kernel) (i : Nat) : Frame k i (withMap k i) := by
  have h1 := frame_withPages k i
  refine (h1.kmalloc .vmap (by simp) i).setMap fun o ho => ?_
  cases ho
  exact New.alloc h1 .vmap i

theorem frame_withRegion (k : Kernel) (i : Nat) : Frame k i (withRegion k i) := by
  have h1 := frame_withMap k i
  have h2 := (h1.kmalloc .region (by simp) i).setPages (k.heap.next + 3) (q := none) nofun
  refine h2.setData (k.heap.next + 2) fun o ho => ?_
  cases ho
  exact New.alloc h1 .region i

theorem frame_stoppedAt {passed : Bool} (h : StoppedAt k i passed k') : Frame k i k' := by
  have hself : ∀ o, some k.heap.next = some o → k.heap.next ≤ o := by
    rintro o ⟨⟩
    exact Nat.le_refl _
  cases h with
  | checks => exact (Frame.refl k i).out nofun nofun
  | pages =>
    have h1 := (Frame.refl k i).kmalloc .devPageAddrs (by simp) i
    exact (h1.setPpages (q := none) nofun).out nofun hself
  | map => exact ((frame_withPages k i).setMap (q := none) nofun).out nofun hself
  | region => exact (frame_withMap k i).out nofun hself

theorem Frame.pinned (h : Frame k i k') (env : MapEnv) (devaddr devLen map gd : Nat) :
    Frame k i (pinned env k' i devaddr devLen map gd) := by
  unfold KernelHeap.pinned
  split
  · exact h.pin i map gd
  · exact h

theorem Frame.mapPages (h : Frame k i k') (p : Platform) (env : MapEnv) (dev : FgdsDev)
    (va devaddr devLen : Nat) {addrs map gd : Nat} (ha : New k k' addrs)
    (hg : k.heap.next ≤ gd) :
    Frame k i (mapPages p env k' i dev va devaddr devLen addrs map gd).kernel := by
  have hpin := h.pinned env devaddr devLen map gd
  have ha' : New k (KernelHeap.pinned env k' i devaddr devLen map gd) addrs := by
    refine ⟨ha.1, ?_⟩
    unfold KernelHeap.pinned
    split
    · rw [pin_heap, Heap.alloc_kind]
      split
      · rfl
      · exact ha.2
    · exact ha.2
  have hset := hpin.setAddrs (q := some addrs) fun o ho => by
    cases ho
    exact ha'
  have hout : ∀ {k'' : Kernel}, Frame k i k'' →
      Frame k i (mapOut k'' i (some gd) (some addrs)) := by
    intro k'' h''
    refine h''.out (fun o ho => ?_) fun o ho => ?_
    · cases ho
      exact hg
    · cases ho
      exact ha.1
  cases hread : readPages (gotPages env devaddr devLen).2 (nrDevPages devLen) with
  | oops =>
    rw [mapPages_oops hread]
    exact hpin
  | missing =>
    rw [mapPages_missing hread]
    exact hout hpin
  | addrs l =>
    by_cases hbar : l.any (badOffset dev) = true
    · rw [mapPages_outside hread hbar]
      exact hout hset
    · by_cases hins : (env.insertPages (k'.bufs i).cVaddr (hostPages p dev va devLen l)).1 ≠ 0
      · rw [mapPages_refused hread hbar hins]
        exact hout hset
      · rw [mapPages_done hread hbar hins]
        exact hset.setRemap true

/-- **Frame.** A MAP of the buffer `i` frees what it allocated and what the buffer had; every
other object stays, and so does what the buffer is found by. -/
theorem fgdsMapDevAddr_frame (p : Platform) (env : MapEnv) (k : Kernel)
    (i devaddr devLen length : Nat) :
    Frame k i (fgdsMapDevAddr p env k i devaddr devLen length).kernel := by
  unfold fgdsMapDevAddr
  split
  · exact Frame.refl k i
  · by_cases hr : ∃ dev va, Reaches env (k.bufs i) devLen dev va
    · obtain ⟨dev, va, hr⟩ := hr
      rw [fgdsMapDevAddrInner_reaches hr]
      have hfirst : (k.kmalloc .devPageAddrs i).heap.kind k.heap.next = some ⟨.devPageAddrs, i⟩ :=
        (Heap.alloc_kind _ _ _).trans (if_pos rfl)
      have haddrs : (withRegion k i).heap.kind k.heap.next = some ⟨.devPageAddrs, i⟩ :=
        Heap.alloc_kind_old (Heap.alloc_kind_old (Heap.alloc_kind_old hfirst _) _) _
      refine (frame_withRegion k i).mapPages p env dev va devaddr devLen ⟨Nat.le_refl _, ?_⟩
        (by omega)
      rw [haddrs]
      rfl
    · obtain ⟨passed, k', ret, _, hstop, hout⟩ := fgdsMapDevAddrInner_stops (p := p) devaddr
        fun dev va hreach => hr ⟨dev, va, hreach⟩
      rw [hout]
      exact frame_stoppedAt hstop

end Frame

/-! ## No pointer points to a buffer -/

def NotBuffer (h : Heap Obj) (o : Nat) : Prop := ∃ c, h.kind o = some c ∧ c.kind ≠ .mbuffer

/-- The pointers between descriptors. -/
structure LinksTyped (k : Kernel) : Prop where
  data : ∀ m g, k.data m = some g → NotBuffer k.heap g
  pages : ∀ g t, k.pages g = some t → NotBuffer k.heap t

/-- The buffers are only found through `vm_private_data`, and hold one reference each. -/
structure Typed (k : Kernel) : Prop extends LinksTyped k where
  ref : ∀ i, Alive k i → (k.bufs i).ref = 1
  ptr : ∀ i, Alive k i → ∀ o, Ptr (k.bufs i) o → NotBuffer k.heap o

section Typed

variable {k k' : Kernel} {i : Nat}

theorem NotBuffer.ne {h : Heap Obj} {o j : Nat} (ho : NotBuffer h o)
    (hj : h.kind j = some ⟨.mbuffer, j⟩) : j ≠ o := by
  rintro rfl
  obtain ⟨c, hc, hne⟩ := ho
  rw [hj] at hc
  cases hc
  exact hne rfl

theorem NotBuffer.mono {h h' : Heap Obj} {o : Nat} (ho : NotBuffer h o)
    (hm : ∀ o c, h.kind o = some c → h'.kind o = some c) : NotBuffer h' o := by
  obtain ⟨c, hc, hne⟩ := ho
  exact ⟨c, hm o c hc, hne⟩

theorem typed_loaded : Typed .loaded :=
  ⟨⟨nofun, nofun⟩, nofun, nofun⟩

theorem Frame.mono (h : Frame k i k') (o : Nat) (c : Obj) (hc : k.heap.kind o = some c) :
    k'.heap.kind o = some c := by
  rw [h.kind o (Heap.lt_of_kind hc), hc]

theorem Frame.notBuffer (h : Frame k i k') {o : Nat} (ho : NotBuffer k.heap o ∨ New k k' o) :
    NotBuffer k'.heap o := by
  rcases ho with ho | ⟨hle, hsome⟩
  · exact ho.mono h.mono
  · obtain ⟨c, hc⟩ := Option.isSome_iff_exists.mp hsome
    exact ⟨c, hc, h.fresh o c hle hc⟩

/-- A MAP neither makes nor frees a buffer. -/
theorem Typed.alive_map (h : Typed k) (hi : Alive k i) (hf : Frame k i k') (j : Nat) :
    Alive k' j ↔ Alive k j := by
  have hown : ∀ {j}, k.heap.kind j = some ⟨.mbuffer, j⟩ → ¬ Own k i j := by
    rintro j hj (hle | hptr)
    · have hlt := Heap.lt_of_kind hj
      omega
    · exact (h.ptr i hi j hptr).ne hj rfl
  constructor
  · rintro ⟨hk, hz⟩
    have hlt : j < k.heap.next := by
      by_contra hge
      exact hf.fresh j _ (by omega) hk rfl
    rw [hf.kind j hlt] at hk
    rw [hf.frees j (hown hk)] at hz
    exact ⟨hk, hz⟩
  · rintro ⟨hk, hz⟩
    exact ⟨hf.mono j _ hk, by rw [hf.frees j (hown hk), hz]⟩

theorem Typed.map_frame (h : Typed k) (hi : Alive k i) (hf : Frame k i k') : Typed k' := by
  have halive := h.alive_map hi hf
  refine ⟨⟨fun m g hg => hf.notBuffer ((hf.data m g hg).imp_left (h.data m g)),
    fun g t ht => hf.notBuffer ((hf.pages g t ht).imp_left (h.pages g t))⟩, fun j hj => ?_,
    fun j hj o ho => hf.notBuffer ?_⟩
  · by_cases hji : j = i
    · subst hji
      rw [hf.ref]
      exact h.ref j hi
    · rw [hf.other j hji]
      exact h.ref j ((halive j).mp hj)
  · by_cases hji : j = i
    · subst hji
      exact (hf.ptr o ho).imp_left (h.ptr j hi o)
    · rw [hf.other j hji] at ho
      exact Or.inl (h.ptr j ((halive j).mp hj) o ho)

/-! ## UNMAP -/

/-- Something other than buffers is freed, and pointers to it are dropped. -/
structure Drops (k k' : Kernel) : Prop where
  kind : k'.heap.kind = k.heap.kind
  frees : ∀ j, k.heap.kind j = some ⟨.mbuffer, j⟩ → k'.heap.frees j = k.heap.frees j
  data : ∀ m g, k'.data m = some g → k.data m = some g
  pages : ∀ g t, k'.pages g = some t → k.pages g = some t

theorem Drops.refl (k : Kernel) : Drops k k := ⟨rfl, fun _ _ => rfl, fun _ _ h => h, fun _ _ h => h⟩

theorem Drops.kfree (h : Drops k k') {o : Nat} (ho : NotBuffer k.heap o) :
    Drops k (k'.kfree o) := by
  refine ⟨(Heap.free_kind _ _).trans h.kind, fun j hj => ?_, h.data, h.pages⟩
  rw [kfree_heap, Heap.free_frees_other _ (ho.ne hj), h.frees j hj]

theorem Drops.kfreeOpt (h : Drops k k') {q : Option Nat}
    (hq : ∀ o, q = some o → NotBuffer k.heap o) : Drops k (k'.kfreeOpt q) := by
  cases q with
  | none => exact h
  | some o => exact h.kfree (hq o rfl)

theorem Drops.setBuf (h : Drops k k') (b : Buf) : Drops k (k'.setBuf i b) :=
  ⟨h.kind, h.frees, h.data, h.pages⟩

theorem Drops.touch (h : Drops k k') (o : Nat) : Drops k (k'.touch o) :=
  ⟨h.kind, h.frees, h.data, h.pages⟩

theorem Drops.setData (h : Drops k k') (m : Nat) : Drops k (k'.setData m none) := by
  refine ⟨h.kind, h.frees, fun m' g hg => ?_, h.pages⟩
  by_cases hm : m' = m
  · rw [hm, setData_data, Function.update_self] at hg
    cases hg
  · rw [setData_data, Function.update_of_ne hm] at hg
    exact h.data m' g hg

theorem Drops.setPages (h : Drops k k') (g : Nat) : Drops k (k'.setPages g none) := by
  refine ⟨h.kind, h.frees, h.data, fun g' t ht => ?_⟩
  by_cases hg : g' = g
  · rw [hg, setPages_pages, Function.update_self] at ht
    cases ht
  · rw [setPages_pages, Function.update_of_ne hg] at ht
    exact h.pages g' t ht

theorem LinksTyped.releaseCore (h : LinksTyped k) {q : Option Nat}
    (hq : ∀ m, q = some m → NotBuffer k.heap m) :
    Drops k (fgdsReleaseCore k q) ∧ (fgdsReleaseCore k q).bufs = k.bufs := by
  cases q with
  | none => exact ⟨Drops.refl k, rfl⟩
  | some m =>
    have hm := (Drops.refl k).touch m
    have hdata : (k.touch m).data = k.data := rfl
    simp only [fgdsReleaseCore, hdata]
    cases hd : k.data m with
    | none => exact ⟨hm.kfree (hq m rfl), rfl⟩
    | some g =>
      have hg := hm.touch g
      have hpages : ((k.touch m).touch g).pages = k.pages := rfl
      simp only [hpages]
      cases hp : k.pages g with
      | none => exact ⟨((hg.kfree (h.data m g hd)).setData m).kfree (hq m rfl), rfl⟩
      | some t =>
        have ht := (hg.kfree (h.pages g t hp)).setPages g
        exact ⟨((ht.kfree (h.data m g hd)).setData m).kfree (hq m rfl), rfl⟩

/-- `fgds_mbuffer_free` changes no other buffer. -/
theorem LinksTyped.mbufferFree (h : LinksTyped k)
    (hptr : ∀ o, Ptr (k.bufs i) o → NotBuffer k.heap o) :
    Drops k (fgdsMbufferFree k i) ∧ (∀ j, j ≠ i → (fgdsMbufferFree k i).bufs j = k.bufs j) ∧
      ((fgdsMbufferFree k i).bufs i).cVaddr = (k.bufs i).cVaddr ∧
      ((fgdsMbufferFree k i).bufs i).mapLen = (k.bufs i).mapLen := by
  obtain ⟨hdrop, hbufs⟩ := h.releaseCore fun m hm => hptr m (Or.inl hm)
  have haddrs : ∀ o, (k.bufs i).devPageAddrs = some o → NotBuffer k.heap o := fun o ho =>
    hptr o (Or.inr (Or.inr ho))
  have hppages : ∀ o, (k.bufs i).ppages = some o → NotBuffer k.heap o := fun o ho =>
    hptr o (Or.inr (Or.inl ho))
  have hrel : Drops k (releaseMapped k i) ∧
      (∀ j, j ≠ i → (releaseMapped k i).bufs j = k.bufs j) ∧
      ((releaseMapped k i).bufs i).cVaddr = (k.bufs i).cVaddr ∧
      ((releaseMapped k i).bufs i).mapLen = (k.bufs i).mapLen := by
    unfold releaseMapped
    split
    · refine ⟨(hdrop.setBuf _).setBuf _, fun j hj => ?_, ?_, ?_⟩
      · simp [setMap, setRemap, hj, hbufs]
      · simp [hbufs]
      · simp [hbufs]
    · exact ⟨Drops.refl k, fun _ _ => rfl, rfl, rfl⟩
  obtain ⟨hdrop', hother, hva, hlen⟩ := hrel
  refine ⟨?_, fun j hj => ?_, ?_, ?_⟩
  · exact ((((hdrop'.kfreeOpt haddrs).setBuf _).kfreeOpt hppages).setBuf _).setBuf _
  · simp [fgdsMbufferFree, setAddrs, setPpages, hj, hother j hj]
  · simp [fgdsMbufferFree, hva]
  · simp [fgdsMbufferFree, hlen]

/-- What an UNMAP does to the buffers: the one that was found is gone. Its contents still say
what it was found by. -/
structure Removes (k : Kernel) (i : Nat) (k' : Kernel) : Prop where
  kind : k'.heap.kind = k.heap.kind
  alive : ∀ j, Alive k' j ↔ Alive k j ∧ j ≠ i
  cVaddr : ∀ j, (k'.bufs j).cVaddr = (k.bufs j).cVaddr
  mapLen : ∀ j, (k'.bufs j).mapLen = (k.bufs j).mapLen

theorem Typed.put (h : Typed k) (hi : Alive k i) :
    Typed (fgdsMbufferPut k i) ∧ Removes k i (fgdsMbufferPut k i) := by
  obtain ⟨b, hb⟩ : ∃ b, b = { k.bufs i with ref := (k.bufs i).ref - 1 } := ⟨_, rfl⟩
  obtain ⟨k1, hk1⟩ : ∃ k1, k1 = k.setBuf i b := ⟨_, rfl⟩
  have hself : k1.bufs i = b := by rw [hk1, setBuf_bufs, Function.update_self]
  have hput : fgdsMbufferPut k i = (fgdsMbufferFree k1 i).kfree i := by
    have hzero : b.ref = 0 := by
      rw [hb]
      simp [h.ref i hi]
    rw [fgdsMbufferPut, ← hb, ← hk1]
    exact if_pos (hself ▸ hzero)
  have hheap : k1.heap = k.heap := by rw [hk1, setBuf_heap]
  have hlinks : LinksTyped k1 := by
    rw [hk1]
    exact ⟨h.data, h.pages⟩
  obtain ⟨hdrop, hother, hva, hlen⟩ := hlinks.mbufferFree (i := i)
    (by rw [hself, hb, hheap]; exact h.ptr i hi)
  have hkind : (fgdsMbufferPut k i).heap.kind = k.heap.kind := by
    rw [hput, kfree_heap, Heap.free_kind, hdrop.kind, hheap]
  have hfrees : ∀ j, k.heap.kind j = some ⟨.mbuffer, j⟩ → j ≠ i →
      (fgdsMbufferPut k i).heap.frees j = k.heap.frees j := by
    intro j hj hji
    rw [hput, kfree_heap, Heap.free_frees_other _ hji, hdrop.frees j (by rw [hheap, hj]), hheap]
  have hgone : (fgdsMbufferPut k i).heap.frees i ≠ 0 := by
    have hlt : i < (fgdsMbufferFree k1 i).heap.next := Heap.lt_of_kind
      (by rw [hdrop.kind, hheap]; exact hi.1)
    rw [hput, kfree_heap, Heap.free_frees hlt, if_pos rfl]
    omega
  have hbufs : ∀ j, j ≠ i → (fgdsMbufferPut k i).bufs j = k.bufs j := by
    intro j hji
    rw [hput, kfree_bufs, hother j hji, hk1, setBuf_bufs, Function.update_of_ne hji]
  have halive : ∀ j, Alive (fgdsMbufferPut k i) j ↔ Alive k j ∧ j ≠ i := by
    intro j
    constructor
    · rintro ⟨hj, hz⟩
      have hji : j ≠ i := fun heq => hgone (heq ▸ hz)
      rw [hkind] at hj
      rw [hfrees j hj hji] at hz
      exact ⟨⟨hj, hz⟩, hji⟩
    · rintro ⟨⟨hj, hz⟩, hji⟩
      exact ⟨hkind ▸ hj, by rw [hfrees j hj hji, hz]⟩
  have hnot : ∀ {o}, NotBuffer k.heap o → NotBuffer (fgdsMbufferPut k i).heap o := fun ho =>
    ho.mono fun o c hc => by rw [hkind, hc]
  refine ⟨⟨⟨fun m g hg => hnot (h.data m g ?_), fun g t ht => hnot (h.pages g t ?_)⟩,
    fun j hj => ?_, fun j hj o ho => ?_⟩, hkind, halive, fun j => ?_, fun j => ?_⟩
  · have hold := hdrop.data m g (by rw [hput] at hg; exact hg)
    rwa [hk1] at hold
  · have hold := hdrop.pages g t (by rw [hput] at ht; exact ht)
    rwa [hk1] at hold
  · obtain ⟨hj, hji⟩ := (halive j).mp hj
    rw [hbufs j hji]
    exact h.ref j hj
  · obtain ⟨hj, hji⟩ := (halive j).mp hj
    rw [hbufs j hji] at ho
    exact hnot (h.ptr j hj o ho)
  · by_cases hji : j = i
    · rw [hji, hput, kfree_bufs, hva, hself, hb]
    · rw [hbufs j hji]
  · by_cases hji : j = i
    · rw [hji, hput, kfree_bufs, hlen, hself, hb]
    · rw [hbufs j hji]

/-! ## `mmap` -/

/-- A new buffer. -/
theorem Typed.mmap (h : Typed k) (dev : FgdsDev) (start stop : Nat) {k' : Kernel}
    (hk' : k' = (k.kmalloc .mbuffer k.heap.next).setBuf k.heap.next (newBuf dev start stop)) :
    Typed k' ∧ ∀ j, Alive k' j ↔ Alive k j ∨ j = k.heap.next := by
  have hkind : ∀ j, k'.heap.kind j =
      if j = k.heap.next then some ⟨.mbuffer, k.heap.next⟩ else k.heap.kind j := by
    intro j
    rw [hk']
    exact Heap.alloc_kind _ _ _
  have hmono : ∀ o c, k.heap.kind o = some c → k'.heap.kind o = some c := by
    intro o c hc
    have hlt := Heap.lt_of_kind hc
    rw [hkind, if_neg (by omega), hc]
  have hfrees : k'.heap.frees = k.heap.frees := by rw [hk']; rfl
  have hself : k'.bufs k.heap.next = newBuf dev start stop := by
    rw [hk', setBuf_bufs, Function.update_self]
  have hother : ∀ j, j ≠ k.heap.next → k'.bufs j = k.bufs j := by
    intro j hj
    rw [hk', setBuf_bufs, Function.update_of_ne hj]
    rfl
  have halive : ∀ j, Alive k' j ↔ Alive k j ∨ j = k.heap.next := by
    intro j
    rw [Alive, hkind, hfrees]
    by_cases hj : j = k.heap.next
    · subst hj
      simp [(k.heap.unborn _ (Nat.le_refl _)).2]
    · simp [hj, Alive]
  refine ⟨⟨⟨fun m g hg => ?_, fun g t ht => ?_⟩, fun j hj => ?_, fun j hj o ho => ?_⟩,
    halive⟩
  · rw [hk'] at hg
    exact (h.data m g hg).mono hmono
  · rw [hk'] at ht
    exact (h.pages g t ht).mono hmono
  · by_cases hjn : j = k.heap.next
    · rw [hjn, hself]
      rfl
    · rw [hother j hjn]
      exact h.ref j (((halive j).mp hj).resolve_right hjn)
  · by_cases hjn : j = k.heap.next
    · rw [hjn, hself] at ho
      rcases ho with hm | hp | ha
      · cases hm
      · cases hp
      · cases ha
    · rw [hother j hjn] at ho
      exact (h.ptr j (((halive j).mp hj).resolve_right hjn) o ho).mono hmono

end Typed

end Fgds.Buffers
