import Fgds.AddressSpace
import Fgds.GpuMap

/-!
# A registration that fails

`fgds_regmem` maps a region segment by segment. When a segment fails, it unmaps what it mapped
and returns an error. The kernel serves its system calls: each `mmap` makes a buffer, each MAP
pins GPU pages for it, and `munmap` removes VMAs and frees neither, since `fgds_mmap` installs no
`vm_ops`. An UNMAP would, but the failure paths do not call it.

* `fgdsRegmem_unmaps`: the host mappings are all undone;
* `regmem_undone_iff`: the kernel is as before only if nothing was mapped at all;
* `regmem_leaves_buffer`: the MAP of the only segment fails.
-/

namespace Fgds.RegmemUndo

open Fgds.Lib.CInt Fgds.Lib.Alloc Fgds.Lib.Ledger Fgds.Device Fgds.Remap Fgds.KernelHeap
open Fgds.Buffers Fgds.AddressSpace Fgds.Regmem
open Fgds.KernelMap (MapEnv)
open Fgds.GpuMap (movedDev shiftedPlatform grantingEnv)
open KernelHeap.Kernel

/-! ## The kernel side of a call -/

/-- The kernel memory, and the VMAs of the process that calls. -/
structure Process where
  mem : Memory
  vmas : List Vma

section Serve

variable (dev : FgdsDev) (p : Platform)

/-- What the kernel does for one system call on the device `dev`, with the answers `env` if it
is a MAP. An `mmap` that returned an address is one for which `fgds_setup_mmap_buffer`
succeeded. -/
def serve (env : MapEnv) (s : Process) : OsCall → Process
  | .mmap _ _ none => s
  | .mmap _ len (some v) =>
    let (mem, vmas) := fgdsMmap s.mem s.vmas (some dev) true v (v + len)
    ⟨mem, vmas⟩
  | .munmap addr len ret => if ret = 0 then { s with vmas := munmap s.vmas addr len } else s
  | .ioctlMap _ para _ => { s with mem := ioctlMap p env s.mem s.vmas para }
  | .ioctlUnmap _ para _ => { s with mem := ioctlUnmap s.mem s.vmas para }

/-- The calls one after the other, from the `n`-th on. -/
def serveAll (envs : Nat → MapEnv) : Nat → Process → List OsCall → Process
  | _, s, [] => s
  | n, s, c :: cs => serveAll envs (n + 1) (serve dev p (envs n) s c) cs

end Serve

/-- A page table that the GPU driver has not got back. -/
def Pinned (k : Kernel) (t : Nat) : Prop :=
  (∃ i, k.heap.kind t = some ⟨.table, i⟩) ∧ k.heap.frees t = 0

/-- The call with the result `r` left everything as it was, the list of registrations `head`
and, served from `s` to `s'`, the kernel. -/
structure Unchanged (head : List MmapNode) (r : RegResult) (s s' : Process) : Prop where
  list : r.buffer.head = head
  host : ∀ addr len, net (callEvents r.calls) (.host addr len) = 0
  maps : ∀ m, net (callEvents r.calls) (.kernel m) = 0
  buffers : ∀ i, Alive s'.mem.kernel i ↔ Alive s.mem.kernel i
  pins : ∀ t, Pinned s'.mem.kernel t ↔ Pinned s.mem.kernel t

/-- Nothing was acquired or given back, and the kernel did nothing. -/
theorem unchanged_of_idle {head : List MmapNode} {r : RegResult} {s s' : Process}
    (hlist : r.buffer.head = head) (hev : callEvents r.calls = []) (hs : s' = s) :
    Unchanged head r s s' := by
  refine ⟨hlist, fun _ _ => ?_, fun _ => ?_, fun _ => by rw [hs], fun _ => by rw [hs]⟩
  · rw [hev, net_nil]
  · rw [hev, net_nil]

/-- The length of the first segment. -/
def firstLen (l : Nat) : Nat := mapLen (mmapCountOf l) (l % fgdsMmapSegmentSize) 0

/-- An allocation or the very first `mmap` fails. -/
def NothingMapped (os : Os) (l : Nat) : Prop :=
  os.mallocNode = none ∨ os.mallocVaddrs = false ∨ os.mmap 0 (firstLen l) = none

/-! ## What the loop leaves in the kernel -/

theorem mapLen_pos (count left i : Nat) : 0 < mapLen count left i := by
  unfold mapLen
  split
  · rename_i h
    exact Nat.pos_of_ne_zero h.2
  · decide

section Keeps

variable {dev : FgdsDev} {p : Platform} {envs : Nat → MapEnv} {o : Nat}

theorem serveAll_append (n : Nat) (s : Process) (cs ds : List OsCall) :
    serveAll dev p envs n s (cs ++ ds) =
      serveAll dev p envs (n + cs.length) (serveAll dev p envs n s cs) ds := by
  induction cs generalizing n s with
  | nil => rfl
  | cons c cs ih =>
    rw [List.cons_append, serveAll, serveAll, ih, List.length_cons, Nat.add_right_comm]
    rfl

/-- Unmapping frees nothing. -/
theorem serveAll_mapCleanup (os : Os) (count left n : Nat) (s : Process) (vaddrs : List Nat) :
    (serveAll dev p envs n s (mapCleanup os count left vaddrs)).mem = s.mem := by
  unfold mapCleanup
  induction vaddrs.zipIdx generalizing n s with
  | nil => rfl
  | cons x xs ih =>
    rw [List.map_cons, serveAll, ih, serve]
    split <;> rfl

/-- The kernel after an `mmap` of `len` bytes at `v`. -/
def afterMmap (dev : FgdsDev) (k : Kernel) (v len : Nat) : Kernel :=
  (k.kmalloc .mbuffer k.heap.next).setBuf k.heap.next (newBuf dev v (v + len))

theorem serve_mmap (env : MapEnv) (s : Process) (fd : Int) (len v : Nat) :
    serve dev p env s (.mmap fd len (some v)) =
      ⟨{ s.mem with kernel := afterMmap dev s.mem.kernel v len },
        ⟨v, v + len, some (.mbuffer s.mem.kernel.heap.next), some s.mem.kernel.heap.next⟩ ::
          s.vmas⟩ := rfl

theorem alive_afterMmap (k : Kernel) (v len : Nat) :
    Alive (afterMmap dev k v len) k.heap.next ∧
      ∀ i, Alive k i → Alive (afterMmap dev k v len) i := by
  refine ⟨⟨(Heap.alloc_kind _ _ _).trans (if_pos rfl), (k.heap.unborn _ (Nat.le_refl _)).2⟩,
    fun i hi => hi.kmalloc .mbuffer _⟩

/-- A MAP of the segment that was just mapped frees no buffer: the lookup finds the new one,
and nothing hangs on it yet. -/
theorem ioctlMap_keeps (env : MapEnv) {mem : Memory} {vmas : List Vma} {v len : Nat}
    (hlen : 0 < len) {k : Kernel} (hk : mem.kernel = afterMmap dev k v len)
    (hvmas : vmas.head? = some ⟨v, v + len, some (.mbuffer k.heap.next), some k.heap.next⟩)
    {para : MapParam} (hpara : para.hostVaddr = v) (h : Alive mem.kernel o) :
    Alive (ioctlMap p env mem vmas para).kernel o := by
  unfold ioctlMap
  cases hfound : fgdsLookupMmapBuffer mem vmas para.hostVaddr para.hostVaddrSize with
  | none => exact h
  | some ptr =>
    obtain ⟨_, _, vma, hvma, hpriv, _⟩ := fgdsLookupMmapBuffer_some.mp hfound
    obtain ⟨rest, hcons⟩ := List.head?_eq_some_iff.mp hvmas
    rw [hcons, vmaLookup, List.find?_cons_of_pos (by simp [hpara]; omega)] at hvma
    cases hvma
    cases hpriv
    have hf := fgdsMapDevAddr_frame p env mem.kernel k.heap.next para.gpuAddr para.gpuAddrSize
      para.hostVaddrSize
    have hblank : mem.kernel.bufs k.heap.next = newBuf dev v (v + len) := by
      rw [hk, afterMmap, setBuf_bufs, Function.update_self]
    have hown : ¬ Own mem.kernel k.heap.next o := by
      rintro (hle | hptr)
      · have hlt := Heap.lt_of_kind h.1
        omega
      · rw [hblank] at hptr
        rcases hptr with hm | hp | ha
        · cases hm
        · cases hp
        · cases ha
    exact ⟨hf.mono o _ h.1, by rw [hf.frees o hown]; exact h.2⟩

variable {os : Os} {mb : MmapBuffer} {gpuAddr count left : Nat}

/-- One more round after an `mmap` that succeeded, if the rounds that follow keep the buffer. -/
theorem mapLoop_keeps_succ {rounds : Nat}
    (ih : ∀ i mmapedLen vaddrs n s, Alive s.mem.kernel o →
      Alive (serveAll dev p envs n s
        (mapLoop os mb gpuAddr count left rounds i mmapedLen vaddrs).2.2).mem.kernel o)
    (i mmapedLen : Nat) (vaddrs : List Nat) (n : Nat) (s : Process) {v : Nat}
    (hmm : os.mmap i (mapLen count left i) = some v)
    (h : Alive (afterMmap dev s.mem.kernel v (mapLen count left i)) o) :
    Alive (serveAll dev p envs n s
      (mapLoop os mb gpuAddr count left (rounds + 1) i mmapedLen vaddrs).2.2).mem.kernel o := by
  have hinner : Alive (serveAll dev p envs (n + 1)
      (serve dev p (envs n) s (.mmap mb.devFd (mapLen count left i) (some v)))
      (fgdsRegmemInner os mb i (u64 (gpuAddr + mmapedLen)) v (mapLen count left i)).2).mem.kernel
        o := by
    rw [serve_mmap]
    unfold fgdsRegmemInner
    split
    · exact h
    · exact ioctlMap_keeps (envs (n + 1)) (mapLen_pos count left i) rfl rfl rfl h
  rw [mapLoop]
  simp only [hmm]
  split
  · rw [List.cons_append, serveAll, serveAll_append, serveAll_mapCleanup]
    exact hinner
  · rw [List.cons_append, serveAll, serveAll_append]
    exact ih _ _ _ _ _ hinner

/-- The loop frees no buffer. By induction on the rounds left. -/
theorem mapLoop_keeps (rounds i mmapedLen : Nat) (vaddrs : List Nat) (n : Nat) (s : Process)
    (h : Alive s.mem.kernel o) :
    Alive (serveAll dev p envs n s
      (mapLoop os mb gpuAddr count left rounds i mmapedLen vaddrs).2.2).mem.kernel o := by
  induction rounds generalizing i mmapedLen vaddrs n s with
  | zero => exact h
  | succ rounds ih =>
    cases hmm : os.mmap i (mapLen count left i) with
    | none =>
      rw [mapLoop]
      simp only [hmm]
      rw [serveAll, serveAll_mapCleanup]
      exact h
    | some v =>
      exact mapLoop_keeps_succ ih i mmapedLen vaddrs n s hmm
        ((alive_afterMmap s.mem.kernel v _).2 o h)

/-- The first segment that was mapped leaves its buffer, whatever happens afterwards. -/
theorem mapLoop_leaves (dev : FgdsDev) (p : Platform) (envs : Nat → MapEnv) (mb : MmapBuffer)
    (gpuAddr rounds : Nat) {i : Nat} (mmapedLen : Nat) (vaddrs : List Nat) (n : Nat)
    (s : Process) {v : Nat} (hmm : os.mmap i (mapLen count left i) = some v) :
    Alive (serveAll dev p envs n s
      (mapLoop os mb gpuAddr count left (rounds + 1) i mmapedLen vaddrs).2.2).mem.kernel
        s.mem.kernel.heap.next :=
  mapLoop_keeps_succ (mapLoop_keeps rounds) i mmapedLen vaddrs n s hmm
    (alive_afterMmap s.mem.kernel v _).1

end Keeps

/-! ## What the loop leaves in the process -/

section Unmaps

variable {os : Os} {mb : MmapBuffer} {gpuAddr count left : Nat}

/-- The `mmap`s that gave `vaddrs`. -/
def mmapsOf (mb : MmapBuffer) (count left : Nat) (vaddrs : List Nat) : List OsCall :=
  vaddrs.zipIdx.map fun (v, j) => .mmap mb.devFd (mapLen count left j) (some v)

theorem callEvents_cons (c : OsCall) (cs : List OsCall) :
    callEvents (c :: cs) = c.events ++ callEvents cs := List.flatMap_cons

theorem callEvents_append (cs ds : List OsCall) :
    callEvents (cs ++ ds) = callEvents cs ++ callEvents ds := List.flatMap_append

/-- The cleanup undoes them. -/
theorem net_mapCleanup (mb : MmapBuffer) (hmun : ∀ j v n, os.munmap j v n = 0)
    (vaddrs : List Nat) (x : Held) :
    net (callEvents (mapCleanup os count left vaddrs)) x =
      -net (callEvents (mmapsOf mb count left vaddrs)) x := by
  simp only [mapCleanup, mmapsOf, hmun]
  induction vaddrs.zipIdx with
  | nil => rfl
  | cons y ys ih =>
    simp only [List.map_cons, callEvents_cons, net_append, ih, OsCall.events, ↓reduceIte,
      net_acquire, net_release, net_nil]
    split <;> omega

theorem mmapsOf_append (mb : MmapBuffer) (count left : Nat) (vaddrs : List Nat) (v : Nat) :
    mmapsOf mb count left (vaddrs ++ [v]) = mmapsOf mb count left vaddrs ++
      [.mmap mb.devFd (mapLen count left vaddrs.length) (some v)] := by
  simp [mmapsOf, List.zipIdx_append]

/-- A MAP is not about a host mapping. -/
theorem net_fgdsRegmemInner (os : Os) (mb : MmapBuffer) (i g h n addr len : Nat) :
    net (callEvents (fgdsRegmemInner os mb i g h n).2) (.host addr len) = 0 := by
  apply net_of_unmentioned
  intro e he
  obtain ⟨c, hc, hev⟩ := List.mem_flatMap.mp he
  unfold fgdsRegmemInner at hc
  split at hc
  · cases hc
  · rw [List.mem_singleton.mp hc, OsCall.events] at hev
    split at hev
    · rw [List.mem_singleton.mp hev]
      simp
    · cases hev

/-- A loop that fails at some segment undoes the host mappings that it made and those made
before it, `vaddrs`. By induction on the rounds left. -/
theorem mapLoop_unmaps (hmun : ∀ j v n, os.munmap j v n = 0) {rounds mmapedLen : Nat}
    (vaddrs : List Nat)
    (hfail : (mapLoop os mb gpuAddr count left rounds vaddrs.length mmapedLen vaddrs).1 = false)
    (addr len : Nat) :
    net (callEvents (mapLoop os mb gpuAddr count left rounds vaddrs.length mmapedLen vaddrs).2.2)
        (.host addr len) =
      -net (callEvents (mmapsOf mb count left vaddrs)) (.host addr len) := by
  induction rounds generalizing mmapedLen vaddrs with
  | zero => cases hfail
  | succ rounds ih =>
    rw [mapLoop] at hfail ⊢
    cases hmm : os.mmap vaddrs.length (mapLen count left vaddrs.length) with
    | none =>
      simp only [callEvents_cons, net_append, OsCall.events, net_nil, Int.zero_add]
      exact net_mapCleanup mb hmun vaddrs _
    | some v =>
      have hinner := net_fgdsRegmemInner os mb vaddrs.length
        (u64 (gpuAddr + mmapedLen)) v (mapLen count left vaddrs.length) addr len
      have happ := congrArg (fun cs => net (callEvents cs) (.host addr len))
        (mmapsOf_append mb count left vaddrs v)
      simp only [callEvents_append, net_append] at happ
      simp only [hmm] at hfail ⊢
      split
      · rw [List.cons_append, callEvents_cons, callEvents_append, net_append, net_append, hinner,
          net_mapCleanup mb hmun, happ]
        simp only [callEvents, List.flatMap_cons, List.flatMap_nil, List.append_nil]
        omega
      · rename_i hret
        rw [if_neg hret] at hfail
        have hlen : (vaddrs ++ [v]).length = vaddrs.length + 1 := by simp
        rw [← hlen] at hfail ⊢
        have htail := ih (vaddrs ++ [v]) hfail
        rw [List.cons_append, callEvents_cons, callEvents_append, net_append, net_append, hinner,
          htail, happ]
        simp only [callEvents, List.flatMap_cons, List.flatMap_nil, List.append_nil]
        omega

end Unmaps

/-! ## A call that fails -/

section Fails

variable {os : Os} {mb : MmapBuffer} {d : Int} {a l : Nat}

/-- The loop of a call for `l` bytes, with some number of rounds. -/
def loopOf (os : Os) (mb : MmapBuffer) (a l rounds : Nat) : Bool × List Nat × List OsCall :=
  mapLoop os mb a (mmapCountOf l) (l % fgdsMmapSegmentSize) rounds 0 0 []

theorem mapSegments_loopOf (os : Os) (mb : MmapBuffer) (a l : Nat) :
    ∃ rounds, mapSegments os mb a l = loopOf os mb a l rounds := ⟨_, rfl⟩

/-- A call that fails made no system call, or its loop failed at some segment. -/
theorem fgdsRegmem_failed (hal : l % fgdsGpuPageSize = 0)
    (hfail : (fgdsRegmem os mb d a l).ret ≠ 0) :
    (os.mallocNode = none ∨ os.mallocVaddrs = false) ∧ (fgdsRegmem os mb d a l).calls = [] ∨
      (os.mallocNode ≠ none ∧ os.mallocVaddrs = true) ∧
        ∃ rounds, (loopOf os { mb with deviceId := d } a l (rounds + 1)).1 = false ∧
          (fgdsRegmem os mb d a l).calls =
            (loopOf os { mb with deviceId := d } a l (rounds + 1)).2.2 := by
  cases hself : os.mallocNode with
  | none => exact Or.inl ⟨Or.inl rfl, (fgdsRegmem_idle mb d a (Or.inl hself)).2⟩
  | some self =>
    cases hva : os.mallocVaddrs with
    | false => exact Or.inl ⟨Or.inr rfl, (fgdsRegmem_idle mb d a (Or.inr (Or.inr hva))).2⟩
    | true =>
      obtain ⟨rounds, hrun⟩ := mapSegments_loopOf os { mb with deviceId := d } a l
      simp only [fgdsRegmem, hself, hrun, hal, hva, not_true_eq_false, ↓reduceIte, ne_eq] at hfail ⊢
      refine Or.inr ⟨⟨by simp, trivial⟩, ?_⟩
      split at hfail
      · rename_i hloop
        rw [if_pos hloop]
        rw [Bool.not_eq_true] at hloop
        cases rounds with
        | zero => cases hloop
        | succ rounds => exact ⟨rounds, hloop, rfl⟩
      · exact absurd rfl hfail

/-- Every host mapping that a failing call made is unmapped. -/
theorem fgdsRegmem_unmaps (hmun : ∀ j v n, os.munmap j v n = 0) (hal : l % fgdsGpuPageSize = 0)
    (hfail : (fgdsRegmem os mb d a l).ret ≠ 0) (addr len : Nat) :
    net (callEvents (fgdsRegmem os mb d a l).calls) (.host addr len) = 0 := by
  rcases fgdsRegmem_failed hal hfail with ⟨_, hcalls⟩ | ⟨_, rounds, hloop, hcalls⟩
  · rw [hcalls]
    rfl
  · rw [hcalls]
    rw [loopOf] at hloop ⊢
    have hnet := mapLoop_unmaps hmun [] hloop addr len
    exact hnet

/-- **Undoing.** A failing `fgds_regmem` leaves the registrations, the host mappings, the
kernel's buffers and the pinned pages as they were if and only if it failed before anything was
mapped: in an allocation or in the very first `mmap`. This holds for every length that passes
the alignment check, every answer of the operating system and of the GPU driver, and every state
of the kernel. -/
theorem regmem_undone_iff (hal : l % fgdsGpuPageSize = 0)
    (hfail : (fgdsRegmem os mb d a l).ret ≠ 0) (dev : FgdsDev) (p : Platform)
    (envs : Nat → MapEnv) (s : Process) :
    Unchanged mb.head (fgdsRegmem os mb d a l) s
        (serveAll dev p envs 0 s (fgdsRegmem os mb d a l).calls) ↔
      NothingMapped os l := by
  have hlist := (fgdsRegmem_refused hfail).1
  rcases fgdsRegmem_failed hal hfail with ⟨halloc, hcalls⟩ | ⟨⟨hnode, hva⟩, rounds, _, hcalls⟩
  · refine iff_of_true (unchanged_of_idle hlist ?_ ?_) ?_
    · rw [hcalls]
      rfl
    · rw [hcalls]
      rfl
    · rcases halloc with hnode | hva
      · exact Or.inl hnode
      · exact Or.inr (Or.inl hva)
  · cases hmm : os.mmap 0 (firstLen l) with
    | none =>
      have hone : (loopOf os { mb with deviceId := d } a l (rounds + 1)).2.2 =
          [.mmap mb.devFd (firstLen l) none] := by
        rw [loopOf, mapLoop]
        rw [firstLen] at hmm
        simp only [hmm]
        rfl
      rw [hone] at hcalls
      refine iff_of_true (unchanged_of_idle hlist ?_ ?_) (Or.inr (Or.inr hmm))
      · rw [hcalls]
        rfl
      · rw [hcalls]
        rfl
    | some v =>
      refine iff_of_false (fun hsame => ?_) ?_
      · have hleft := mapLoop_leaves dev p envs { mb with deviceId := d } a rounds 0 [] 0 s hmm
        have hold := (hsame.buffers s.mem.kernel.heap.next).mp (by rw [hcalls]; exact hleft)
        have hlt := Heap.lt_of_kind hold.1
        omega
      · rintro (hnone | hfalse | hnone)
        · exact hnode hnone
        · rw [hva] at hfalse
          cases hfalse
        · rw [hmm] at hnone
          cases hnone

end Fails

/-- An open device without registrations, and a process before its first registration. -/
def openDevice : MmapBuffer := ⟨0, 3, true, []⟩

def idleProcess : Process := ⟨⟨.loaded, fun _ => (0, 0)⟩, []⟩

/-- The first `mmap` fails. -/
def refusingOs : Os := { plainOs 1 4294967296 with mmap := fun _ _ => none }

/-- The `mmap`s succeed, the MAPs return -ENOMEM. -/
def failingOs : Os := { plainOs 1 4294967296 with ioctlMap := fun _ _ => -12 }

/-- The `mmap` of the second segment fails. -/
def halfwayOs : Os :=
  { plainOs 2 17179869184 with mmap := fun i _ => if i = 0 then some 17179869184 else none }

/-- The process in which 1GB and 128KB are registered at 1MB. -/
def firstRegion : RegResult := fgdsRegmem (plainOs 1 4294967296) openDevice 0 1048576 1073872896

def firstProcess : Process :=
  serveAll movedDev shiftedPlatform (fun _ => grantingEnv) 0 idleProcess firstRegion.calls

/-- Two calls for 1GB and 64KB at 8GB beside this region. If the first `mmap` fails nothing has
changed; if the second fails the first segment is unmapped, and its buffer is left. -/
theorem regmem_undone_beside :
    Unchanged firstRegion.buffer.head
        (fgdsRegmem refusingOs firstRegion.buffer 0 8589934592 1073807360) firstProcess
        (serveAll movedDev shiftedPlatform (fun _ => grantingEnv) 0 firstProcess
          (fgdsRegmem refusingOs firstRegion.buffer 0 8589934592 1073807360).calls) ∧
      ¬ Unchanged firstRegion.buffer.head
        (fgdsRegmem halfwayOs firstRegion.buffer 0 8589934592 1073807360) firstProcess
        (serveAll movedDev shiftedPlatform (fun _ => grantingEnv) 0 firstProcess
          (fgdsRegmem halfwayOs firstRegion.buffer 0 8589934592 1073807360).calls) := by
  have hfirst : (fgdsRegmem refusingOs firstRegion.buffer 0 8589934592 1073807360).ret ≠ 0 := by
    decide +kernel
  have hsecond : (fgdsRegmem halfwayOs firstRegion.buffer 0 8589934592 1073807360).ret ≠ 0 := by
    decide +kernel
  refine ⟨(regmem_undone_iff (by decide) hfirst movedDev shiftedPlatform _ firstProcess).mpr
    (.inr (.inr rfl)), fun hsame => ?_⟩
  rcases (regmem_undone_iff (by decide) hsecond movedDev shiftedPlatform _ firstProcess).mp hsame
    with hnode | hvaddrs | hmmap
  · cases hnode
  · cases hvaddrs
  · cases hmmap

/-- The kernel has no memory left for the `p2p_vmap` of the only segment: MAP fails, the segment
is unmapped again, and the buffer that `mmap` made for it stays. -/
theorem regmem_leaves_buffer :
    (fgdsRegmem failingOs openDevice 0 1048576 65536).ret ≠ 0 ∧
      ¬ Unchanged [] (fgdsRegmem failingOs openDevice 0 1048576 65536) idleProcess
        (serveAll movedDev shiftedPlatform (fun _ => { grantingEnv with kmallocMap := false }) 0
          idleProcess (fgdsRegmem failingOs openDevice 0 1048576 65536).calls) := by
  refine ⟨by decide +kernel, fun hsame => ?_⟩
  have hold := (hsame.buffers 0).mp ⟨by decide +kernel, by decide +kernel⟩
  cases hold.1

end Fgds.RegmemUndo
