import Fgds.Uring

/-!
# Interior pointers and the stream operations

`libfgds/integration.cc` queues a read or a write on a CUDA stream. It has no buffer
offset: the only way to address the inside of a region is an interior pointer. The
lookup accepts such a pointer, but the translation then counts `buf_offset` from the
start of the region it found.

* `Shows`: the GPU byte behind a host address; `PointsAt`: what a device pointer plus
  an offset should mean, for the translation and for the stream operations;
* `interior_pointer_iff`: it means that for no pointer but the base of the region.
-/

namespace Fgds.Async

open Fgds.Lib.CInt Fgds.Lib.Tiling Fgds.Device Fgds.Xfer Fgds.Uring

/-! ## `fgds_read_async` and `fgds_write_async` -/

/-- `cudaError_t`; the other values come from the runtime. -/
inductive CudaError where
  | success
  | hostMemoryNotRegistered
  | other (code : Nat)
  deriving DecidableEq, Repr

/-- `struct fgds_data` without the result pointer. -/
structure FgdsData where
  fd : Int
  op : Opcode
  xferAddr : List XferAddr
  fileOffset : Int
  deriving DecidableEq, Repr

section Callback

variable (rw : Nat → Sqe → Int) (data : FgdsData) (owner : Nat)

/-- The loop of `fgds_callback`. The file offset advances by the length asked for and
`bytes_done` by the result, whatever that is. -/
def callbackLoop : List XferAddr → Nat → Int → Int → Int × List Cqe
  | [], _, _, bytesDone => (bytesDone, [])
  | e :: es, i, fileOffset, bytesDone =>
    let q : Sqe :=
      { opcode := data.op, fd := data.fd, addr := e.targetAddr, len := e.nbyte,
        off := u64 fileOffset, owner }
    let ret := rw i q
    let rest := callbackLoop es (i + 1) (s64 (fileOffset + e.nbyte)) (s64 (bytesDone + ret))
    (rest.1, ⟨q, ret⟩ :: rest.2)

/-- `fgds_callback`: the final `bytes_done`, and the operations carried out. -/
def fgdsCallback : Int × List Cqe := callbackLoop rw data owner data.xferAddr 0 data.fileOffset 0

end Callback

section Launch

variable (head : List MmapNode) (launch : CudaError)

/-- `fgds_async`: the status returned, and the data passed to `cudaLaunchHostFunc`, whose
own answer is `launch`. -/
def fgdsAsync (fd : Int) (op : Opcode) (buf nbytes : Nat) (offset : Int) :
    CudaError × Option FgdsData :=
  match fgdsDoXferAddr head buf 0 nbytes with
  | none => (.hostMemoryNotRegistered, none)
  | some addrs => (launch, some { fd, op, xferAddr := addrs, fileOffset := offset })

def fgdsReadAsync (fd : Int) (buf nbytes : Nat) (offset : Int) : CudaError × Option FgdsData :=
  fgdsAsync head launch fd .read buf nbytes offset

def fgdsWriteAsync (fd : Int) (buf nbytes : Nat) (offset : Int) : CudaError × Option FgdsData :=
  fgdsAsync head launch fd .write buf nbytes offset

end Launch

/-! ## What a pointer should mean -/

/-- Host address `x` shows the GPU byte `g`. -/
def Shows (head : List MmapNode) (x g : Nat) : Prop :=
  ∃ nd ∈ head, ∃ o < nd.length, x = nd.hostAddr o ∧ g = nd.gpuAddr + o

/-- The operations cut the `n` bytes of the file from `f` on, and each byte goes to or
comes from the GPU byte at the same distance from `g`. -/
def Moves (head : List MmapNode) (g f n : Nat) (qs : List Sqe) : Prop :=
  Tiles Sqe.len
    (fun p q => q.off = p ∧ ∀ j < q.len, Shows head (q.addr + j) (g + (p - f) + j)) f (f + n) qs

/-- The operation was accepted, and its callback moves the bytes at `g`. -/
def Transfers (head : List MmapNode) (g f n : Nat) (res : CudaError × Option FgdsData) : Prop :=
  ∃ data, res = (.success, some data) ∧
    ∀ rw owner, Moves head g f n ((fgdsCallback rw data owner).2.map Cqe.sqe)

/-- The pointer `base + d` with the offset `off` means the `n` GPU bytes from
`base + d + off` on, and a stream operation on `base + d` moves the `n` bytes there. -/
structure PointsAt (head : List MmapNode) (base d off n : Nat) : Prop where
  same : fgdsDoXferAddr head (base + d) off n = fgdsDoXferAddr head base (d + off : Nat) n
  bytes : ∃ es, fgdsDoXferAddr head (base + d) off n = some es ∧
    ∀ k < n, ∃ x, byteAt es k = some x ∧ Shows head x (base + d + off + k)
  read : ∀ (fd : Int) (f : Nat), f < 2 ^ 63 →
    Transfers head (base + d) f n (fgdsReadAsync head .success fd (base + d) n f)
  write : ∀ (fd : Int) (f : Nat), f < 2 ^ 63 →
    Transfers head (base + d) f n (fgdsWriteAsync head .success fd (base + d) n f)

/-! ## When it does -/

/-- The callback on the segments of a window: the file offsets follow the window. -/
theorem callbackLoop_moves {head : List MmapNode} {nd : MmapNode} (hnd : nd ∈ head)
    (rw : Nat → Sqe → Int) (data : FgdsData) (owner : Nat) {f n : Nat} (hn : n ≤ nd.length)
    (hf : f + n < 2 ^ 64) {es : List XferAddr} {p : Nat}
    (ht : Tiles XferAddr.nbyte (XferAddr.At nd) p n es) (i : Nat) {fileOffset : Int}
    (hoff : u64 fileOffset = u64 (f + p : Nat)) (bytesDone : Int) :
    Tiles Sqe.len
      (fun p q => q.off = p ∧
        ∀ j < q.len, Shows head (q.addr + j) (nd.gpuAddr + (p - f) + j)) (f + p) (f + n)
      ((callbackLoop rw data owner es i fileOffset bytesDone).2.map Cqe.sqe) := by
  induction es generalizing p i fileOffset bytesDone with
  | nil =>
    rw [tiles_nil] at ht
    simp [callbackLoop, ht]
  | cons e es ih =>
    obtain ⟨hpos, hat, hrest⟩ := ht
    have hle := tiles_le hrest
    have hp : u64 fileOffset = f + p := hoff.trans (u64_eq rfl (by omega))
    have hnext : u64 (s64 (fileOffset + (e.nbyte : Nat))) = u64 (f + (p + e.nbyte) : Nat) := by
      rw [u64_s64]
      unfold u64 at hoff ⊢
      omega
    refine ⟨hpos, ⟨hp, fun j hj => ?_⟩, ?_⟩
    · refine ⟨nd, hnd, p + j, ?_, ?_, ?_⟩
      · simp only at hj
        omega
      · rw [← nd.hostAddr_add hj hat.2, ← hat.1]
      · omega
    · have htail := ih hrest (i + 1) hnext
        (s64 (bytesDone + rw i ⟨data.op, data.fd, e.targetAddr, e.nbyte, u64 fileOffset, owner⟩))
      rw [← Nat.add_assoc] at htail
      exact htail

section Regions

variable {head : List MmapNode} (hreg : ∀ nd ∈ head, nd.Registered)
  (hhost : head.Pairwise HostDisjoint)
include hreg hhost

/-- A host address belongs to one offset of one region. -/
theorem hostAddr_unique {a b : MmapNode} (ha : a ∈ head) (hb : b ∈ head) {x y : Nat}
    (hx : x < a.length) (hy : y < b.length) (he : a.hostAddr x = b.hostAddr y) :
    a = b ∧ x = y := by
  by_cases hab : a = b
  · subst hab
    exact ⟨rfl, (hreg a ha).hostAddr_inj hx hy he⟩
  · have hd : HostDisjoint a b := hhost.forall ha hb hab
    exact absurd he (hostAddr_ne (hreg a ha) (hreg b hb) hd hx hy)

omit hhost in
/-- A translation that returns a list found a region that holds the window. -/
theorem xfer_found {gpuBuf b n : Nat} (hn : 0 < n) (hb : b + n < 2 ^ 64) {es : List XferAddr}
    (h : fgdsDoXferAddr head gpuBuf b n = some es) :
    ∃ nd ∈ head, findFgdsMmapNode head gpuBuf n = some nd ∧ b + n ≤ nd.length ∧
      Tiles XferAddr.nbyte (XferAddr.At nd) b (b + n) es := by
  cases hf : findFgdsMmapNode head gpuBuf n with
  | none => simp [fgdsDoXferAddr_none hf] at h
  | some nd =>
    have hnd := List.mem_of_find?_eq_some hf
    rw [fgdsDoXferAddr_some hf] at h
    obtain ⟨hin, ht⟩ := xferWindow_accepted (hreg nd hnd) hn hb h
    exact ⟨nd, hnd, rfl, hin, ht⟩

omit hhost in
/-- On a region that starts at the pointer everything is as it should be. -/
theorem pointsAt_base {base off n : Nat} (hn : 0 < n) {nd : MmapNode}
    (hf : findFgdsMmapNode head base n = some nd) (hbase : nd.gpuAddr = base)
    (hin : off + n ≤ nd.length) : PointsAt head base 0 off n := by
  have hnd := List.mem_of_find?_eq_some hf
  have hlen := (hreg nd hnd).length_lt
  obtain ⟨es, hes, ht, _⟩ := xferWindow_inside (hreg nd hnd) hn hin
  obtain ⟨es0, hes0, ht0, _⟩ :=
    xferWindow_inside (b := 0) (hreg nd hnd) hn (by omega)
  rw [Nat.zero_add] at ht0
  have hasync : ∀ (fd : Int) (op : Opcode) (f : Nat), f < 2 ^ 63 →
      Transfers head (base + 0) f n (fgdsAsync head .success fd op (base + 0) n f) := by
    intro fd op f hlt
    refine ⟨⟨fd, op, es0, f⟩, ?_, fun rw owner => ?_⟩
    · have hx : fgdsDoXferAddr head (base + 0) 0 n = some es0 :=
        (fgdsDoXferAddr_some hf 0).trans hes0
      simp only [fgdsAsync, hx]
    · rw [Nat.add_zero, ← hbase]
      exact callbackLoop_moves hnd rw _ owner (by omega) (by omega) ht0 0 rfl 0
  refine ⟨?_, ⟨es, ?_, fun k hk => ?_⟩, fun fd f => hasync fd .read f,
    fun fd f => hasync fd .write f⟩
  · simp
  · exact (fgdsDoXferAddr_some hf off).trans hes
  · refine ⟨_, byteAt_tiles ht (by omega), nd, hnd, off + k, by omega, rfl, by omega⟩

/-- **Interior pointers.** A pointer into a region means what it says exactly when it is
the base, and the lookup finds a region that starts there and holds the window. Among
disjoint regions it is the base alone that decides. -/
theorem interior_pointer_iff {nd : MmapNode} (hnd : nd ∈ head) {d off n : Nat} (hn : 1 ≤ n)
    (hin : d + off + n ≤ nd.length) :
    (PointsAt head nd.gpuAddr d off n ↔
      d = 0 ∧ ∃ nd', findFgdsMmapNode head nd.gpuAddr n = some nd' ∧
        nd'.gpuAddr = nd.gpuAddr ∧ off + n ≤ nd'.length) ∧
    ((∀ m ∈ head, m.gpuAddr + m.length < 2 ^ 64) → head.Pairwise GpuDisjoint →
      (PointsAt head nd.gpuAddr d off n ↔ d = 0)) := by
  have hlen := (hreg nd hnd).length_lt
  have hiff : PointsAt head nd.gpuAddr d off n ↔
      d = 0 ∧ ∃ nd', findFgdsMmapNode head nd.gpuAddr n = some nd' ∧
        nd'.gpuAddr = nd.gpuAddr ∧ off + n ≤ nd'.length := by
    constructor
    · intro h
      obtain ⟨es, hes, hbytes⟩ := h.bytes
      obtain ⟨m, hm, hfm, hinm, htm⟩ := xfer_found hreg hn (by omega) hes
      -- byte 0 of the list shows which region was found, and that it starts at the pointer
      obtain ⟨x, hx, m', hm', o, ho, hxo, hg⟩ := hbytes 0 (by omega)
      rw [byteAt_tiles htm (by omega), Option.some.injEq, Nat.add_zero] at hx
      obtain ⟨rfl, rfl⟩ := hostAddr_unique hreg hhost hm hm' (by omega) ho (hx.trans hxo)
      -- the other list is the same one, so it is found in the same region at the same offset
      have hsame := h.same
      rw [hes] at hsame
      obtain ⟨m', hm', hfm', hinm', htm'⟩ := xfer_found hreg hn (by omega) hsame.symm
      have hb := byteAt_tiles htm (show off + 0 < off + n by omega)
      rw [byteAt_tiles htm' (by omega), Option.some.injEq] at hb
      obtain ⟨rfl, hd⟩ := hostAddr_unique hreg hhost hm' hm (by omega) (by omega) hb
      exact ⟨by omega, m', hfm', by omega, hinm⟩
    · rintro ⟨rfl, nd', hf, hbase, hin'⟩
      exact pointsAt_base hreg hn hf hbase hin'
  refine ⟨hiff, fun hend hgpu => hiff.trans ⟨fun h => h.1, fun h => ⟨h, nd, ?_, rfl, by omega⟩⟩⟩
  exact find_of_disjoint hend hgpu hnd hn (Nat.le_refl _) (by omega)

end Regions

/-- The base of a 4MB region, with a buffer offset. -/
theorem interior_pointer_iff_base :
    PointsAt [oneSegment 1 4294967296 1048576 4194304] 1048576 0 65536 4096 := by
  have hreg : ∀ nd ∈ [oneSegment 1 4294967296 1048576 4194304], nd.Registered := by
    intro nd hnd
    rw [List.mem_singleton.mp hnd]
    exact oneSegment_registered _ _ _ _ (by decide) (by decide) (by decide) (by decide)
  refine ((interior_pointer_iff hreg (List.pairwise_singleton _ _) List.mem_cons_self
    (by decide) (by decide : 0 + 65536 + 4096 ≤ 4194304)).2 ?_ ?_).mpr rfl
  · decide
  · exact List.pairwise_singleton _ _

/-- A pointer 64KB into that region: the translation answers with the start of the region. -/
theorem interior_pointer_ignored :
    fgdsDoXferAddr [oneSegment 1 4294967296 1048576 4194304] (1048576 + 65536) 0 4096 =
        some [⟨4294967296, 4096⟩] ∧
      fgdsDoXferAddr [oneSegment 1 4294967296 1048576 4194304] 1048576 65536 4096 =
        some [⟨4294967296 + 65536, 4096⟩] ∧
      ¬ PointsAt [oneSegment 1 4294967296 1048576 4194304] 1048576 65536 0 4096 := by
  have hin : fgdsDoXferAddr [oneSegment 1 4294967296 1048576 4194304] (1048576 + 65536) 0 4096 =
      some [⟨4294967296, 4096⟩] := by decide +kernel
  have hbase : fgdsDoXferAddr [oneSegment 1 4294967296 1048576 4194304] 1048576 65536 4096 =
      some [⟨4294967296 + 65536, 4096⟩] := by decide +kernel
  refine ⟨hin, hbase, fun h => ?_⟩
  have hsame := h.same
  simp only [Nat.cast_zero, Nat.add_zero] at hsame
  rw [hin] at hsame
  have hne := hsame.trans hbase
  simp at hne

end Fgds.Async
