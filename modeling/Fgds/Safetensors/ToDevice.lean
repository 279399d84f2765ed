import Fgds.Regmem
import Fgds.Safetensors.Save
import Fgds.Transfer

/-!
# Loading tensors into GPU memory

`read_tensor_fgds` parses and checks a file; `tensor_to_device_fgds` then allocates a buffer for
each tensor, registers it, reads the pages of the file that hold the tensor into it, and releases
the registration. The buffers stay allocated.

* `extent_covers`: the pages that are read hold the tensor, and the buffer holds the pages;
* `tensorRound_works`: one round;
* `tensors_on_device`: after the loop, every tensor of the file is in its buffer.
-/

namespace Fgds.Safetensors

open Backend (Bytes)
open Device Lib.CInt Pipeline ReadWrite Regmem Storage Transfer Uring

/-! ## The loop -/

/-- The variables of one round, in `ssize_t`. -/
structure Extent where
  offset : Int
  size : Int
  alignedOffset : Int
  alignedSize : Int
  allocSize : Int

def extent (headerSize : Nat) (t : TensorT) : Extent :=
  let offset := s64 (t.dataOffsets.1.toNat + 8 + headerSize)
  let size := s64 (t.dataOffsets.2.toNat - t.dataOffsets.1.toNat)
  let alignedOffset := offset / 4096 * 4096
  let alignedEnd := (offset + size + 4095) / 4096 * 4096
  let alignedSize := alignedEnd - alignedOffset
  ⟨offset, size, alignedOffset, alignedSize, (alignedSize + 65535) / 65536 * 65536⟩

/-- The answers to the calls of one round; `mem` is the host memory when the read starts. -/
structure Round where
  cudaMalloc : Option Nat
  regmem : Os
  kernel : Kernel
  mem : Nat → UInt8
  deregmem : Os

/-- A buffer on the device. -/
structure DevBuffer where
  key : Text
  devPtr : Nat
  deriving DecidableEq, Repr

/-- How `tensor_to_device_fgds` ends: with the total size, with -1, in `exit`, or not at all. -/
inductive Outcome where
  | total (size : Nat)
  | error
  | exit
  | hangs
  deriving DecidableEq, Repr

/-- The state of the library, the variables of the loop and the memory of the device. -/
structure LoopState where
  mb : MmapBuffer
  ring : Ring
  totalFileSize : Nat
  buffers : List DevBuffer
  gpu : Nat → UInt8

/-- The bytes of the newest registration, through its mapping. -/
def newestBytes (head : List MmapNode) (mem : Nat → UInt8) (o : Nat) : UInt8 :=
  match head with
  | [] => 0
  | nd :: _ => mem (nd.hostAddr o)

/-- The memory of the device after the bytes `byte` went to `l` bytes from `p` on. -/
def gpuWrite (gpu : Nat → UInt8) (p : Nat) (l : Int) (byte : Nat → UInt8) (a : Nat) : UInt8 :=
  if p ≤ a ∧ (a : Int) < p + l then byte (a - p) else gpu a

section Loop

variable (deviceId fd : Int) (files : Int → File) (fileSize : Nat)

/-- Behind the read of a round; `res` is its result. -/
def afterRead (c : Round) (key : Text) (x : Extent) (devPtr : Nat) (s : LoopState)
    (res : IoResult) : LoopState ⊕ Outcome × LoopState :=
  let w := World.applyAll ⟨c.mem, files⟩ res.log
  let s := { s with
    ring := res.ring
    buffers := s.buffers ++ [⟨key, devPtr⟩]
    gpu := gpuWrite s.gpu devPtr x.allocSize (newestBytes s.mb.head w.mem) }
  if res.ret ≠ x.alignedSize ∧ res.ret < 0 then .inr (.error, s)
  else if res.ret = 0 then .inr (.total s.totalFileSize, s) -- End of file reached
  else
    let dereg := fgdsDeregmem c.deregmem s.mb devPtr (u64 x.allocSize)
    let s := { s with mb := dereg.buffer }
    if dereg.ret ≠ 0 then .inr (.exit, s)
    else .inl { s with totalFileSize := u64 (s.totalFileSize + x.size) }

/-- Round `i` of `tensor_to_device_fgds`: the state for the next one, or how the function ends. -/
def tensorRound (c : Round) (i : Nat) (key : Text) (x : Extent) (s : LoopState) :
    LoopState ⊕ Outcome × LoopState :=
  if x.alignedOffset > s64 fileSize then .inl s
  else
    match c.cudaMalloc with
    | none => .inr (.exit, s)
    | some devPtr =>
      let reg := fgdsRegmem c.regmem s.mb deviceId devPtr (u64 x.allocSize)
      let s := { s with mb := reg.buffer }
      if reg.ret ≠ 0 then .inr (.error, s)
      else
        match fgdsRead s.mb.head c.kernel s.ring
          ⟨fd, devPtr, 0, x.alignedSize, x.alignedOffset, i⟩ with
        | none => .inr (.hangs, s)
        | some res => afterRead files c key x devPtr s res

/-- `tensor_to_device_fgds` from tensor `i` on. -/
def tensorLoop (headerSize : Nat) (rounds : Nat → Round) :
    List (Text × TensorT) → Nat → LoopState → Outcome × LoopState
  | [], _, s => (.total s.totalFileSize, s)
  | (key, t) :: es, i, s =>
    (tensorRound deviceId fd files fileSize (rounds i) i key (extent headerSize t) s).elim
      (fun s => tensorLoop headerSize rounds es (i + 1) s) id

/-- The bytes of a file. -/
def fileBytes (file : File) : Bytes := (List.range file.size).map file.byte

/-- `read_tensor_fgds` of the file behind `fd`; an error is `EXIT_FAILURE`. -/
def readTensorFgds {N : Type} (double : Double N) (filename strerror : Text) (mmap : Nat → Bool)
    (rounds : Nat → Round) (mb : MmapBuffer) (ring : Ring) (gpu : Nat → UInt8) :
    Except Text (Outcome × LoopState) := do
  let (st, _) ← mmapFromFile double filename strerror mmap true (fileBytes (files fd))
  validateDataOffsets st
  return tensorLoop deviceId fd files (files fd).size st.headerSize rounds st.tensors.entries 0
    ⟨mb, ring, 0, [], gpu⟩

end Loop

section Steps

variable {deviceId fd : Int} (files : Int → File) {fileSize : Nat} {c : Round} (key : Text)
  {x : Extent} {devPtr : Nat} {s : LoopState} {res : IoResult}

theorem tensorRound_read {i : Nat} {mb : MmapBuffer} (hskip : x.alignedOffset ≤ s64 fileSize)
    (hptr : c.cudaMalloc = some devPtr)
    (hreg : (fgdsRegmem c.regmem s.mb deviceId devPtr (u64 x.allocSize)).ret = 0)
    (hmb : (fgdsRegmem c.regmem s.mb deviceId devPtr (u64 x.allocSize)).buffer = mb)
    (hres : fgdsRead mb.head c.kernel s.ring
      ⟨fd, devPtr, 0, x.alignedSize, x.alignedOffset, i⟩ = some res) :
    tensorRound deviceId fd files fileSize c i key x s =
      afterRead files c key x devPtr { s with mb } res := by
  unfold tensorRound
  rw [if_neg (Int.not_lt.mpr hskip), hptr]
  dsimp only
  rw [if_neg (not_not.mpr hreg), hmb, hres]

theorem afterRead_next {mb : MmapBuffer} (hpos : 0 < res.ret)
    (hret : (fgdsDeregmem c.deregmem s.mb devPtr (u64 x.allocSize)).ret = 0)
    (hmb : (fgdsDeregmem c.deregmem s.mb devPtr (u64 x.allocSize)).buffer = mb) :
    afterRead files c key x devPtr s res =
      .inl ⟨mb, res.ring, u64 (s.totalFileSize + x.size), s.buffers ++ [⟨key, devPtr⟩],
        gpuWrite s.gpu devPtr x.allocSize
          (newestBytes s.mb.head (World.applyAll ⟨c.mem, files⟩ res.log).mem)⟩ := by
  unfold afterRead
  dsimp only
  rw [if_neg (by omega), if_neg (by omega), if_neg (not_not.mpr hret), hmb]

end Steps

/-! ## Pages -/

/-- The place of a tensor in a file of `S` bytes. -/
structure InFile (headerSize S : Nat) (t : TensorT) : Prop where
  pos : t.dataOffsets.1.toNat < t.dataOffsets.2.toNat
  fits : 8 + headerSize + t.dataOffsets.2.toNat ≤ S

/-- Where the tensor starts in the file, and its length. -/
def TensorT.start (headerSize : Nat) (t : TensorT) : Nat := 8 + headerSize + t.dataOffsets.1.toNat

def TensorT.bytes (t : TensorT) : Nat := t.dataOffsets.2.toNat - t.dataOffsets.1.toNat

/-- The pages from `f` on, `n` bytes, are read into a buffer of `l` bytes. -/
structure Extent.Pages (x : Extent) (headerSize : Nat) (t : TensorT) (f n l : Nat) : Prop where
  size : x.size = t.bytes
  alignedOffset : x.alignedOffset = f
  alignedSize : x.alignedSize = n
  allocSize : x.allocSize = l
  pos : 0 < n
  buffer : n ≤ l
  small : l < 2 ^ 60
  aligned : l % 65536 = 0
  page : f + t.start headerSize % 4096 = t.start headerSize
  covered : t.start headerSize + t.bytes ≤ f + n

theorem InFile.end_le {headerSize S : Nat} {t : TensorT} (h : InFile headerSize S t) :
    0 < t.bytes ∧ t.start headerSize + t.bytes ≤ S := by
  obtain ⟨hpos, hfits⟩ := h
  rw [TensorT.start, TensorT.bytes]
  omega

/-- The pages that are read hold the tensor, and the buffer holds the pages. -/
theorem extent_covers {headerSize S : Nat} {t : TensorT} (h : InFile headerSize S t)
    (hS : S < 2 ^ 59) : ∃ f n l, (extent headerSize t).Pages headerSize t f n l := by
  obtain ⟨hbytes, hend⟩ := h.end_le
  obtain ⟨hpos, hfits⟩ := h
  have hoffset : s64 (t.dataOffsets.1.toNat + 8 + headerSize) = t.start headerSize := by
    rw [s64_eq (by omega) (by omega), TensorT.start]
    omega
  have hsize : s64 (t.dataOffsets.2.toNat - t.dataOffsets.1.toNat) = t.bytes := by
    rw [s64_eq (by omega) (by omega), TensorT.bytes]
    omega
  refine ⟨t.start headerSize / 4096 * 4096,
    (t.start headerSize + t.bytes + 4095) / 4096 * 4096 - t.start headerSize / 4096 * 4096,
    ((t.start headerSize + t.bytes + 4095) / 4096 * 4096 - t.start headerSize / 4096 * 4096 +
      65535) / 65536 * 65536, hsize, ?_, ?_, ?_, by omega, by omega, by omega, by omega, by omega,
    by omega⟩
  all_goals
    unfold extent
    dsimp only
    rw [hoffset]
  · omega
  · rw [hsize]
    omega
  · rw [hsize]
    omega

/-! ## One round -/

section Round

variable {deviceId fd : Int} {files : Int → File} {headerSize : Nat}

/-- A round in which nothing fails: the buffer is allocated, mapped and released, and the read gets
what the file has. -/
structure Works (c : Round) (S : Nat) (l : Nat) : Prop where
  cudaMalloc : ∃ devPtr, c.cudaMalloc = some devPtr ∧ devPtr + l < 2 ^ 64
  regmem : c.regmem.Grants
  apart : MapsApart c.regmem l
  kernel : FullReads c.kernel S
  deregmem : c.deregmem.Grants

/-- The buffer at `p` holds the bytes of the tensor, at the place they have in their page. -/
def Holds (file : File) (headerSize : Nat) (gpu : Nat → UInt8) (t : TensorT) (p : Nat) : Prop :=
  ∀ j < t.bytes, gpu (p + (t.start headerSize % 4096 + j)) = file.byte (t.start headerSize + j)

/-- The length that is allocated. -/
def allocLength (headerSize : Nat) (t : TensorT) : Nat := (extent headerSize t).allocSize.toNat

theorem Extent.Pages.allocLength_eq {t : TensorT} {f n l : Nat}
    (hx : (extent headerSize t).Pages headerSize t f n l) : allocLength headerSize t = l := by
  rw [allocLength, hx.allocSize, Int.toNat_natCast]

theorem gpuWrite_inside (gpu byte : Nat → UInt8) {p l o : Nat} (h : o < l) :
    gpuWrite gpu p l byte (p + o) = byte o := by
  rw [gpuWrite, if_pos (by omega), Nat.add_sub_cancel_left]

theorem gpuWrite_outside (gpu byte : Nat → UInt8) {p l a : Nat} (h : a < p ∨ p + l ≤ a) :
    gpuWrite gpu p l byte a = gpu a :=
  if_neg (by omega)

/-- What the buffer of a tensor holds is not seen outside it. -/
theorem Holds.congr {file : File} {S : Nat} {t : TensorT} {p : Nat} {gpu gpu' : Nat → UInt8}
    (hfile : InFile headerSize S t) (hS : S < 2 ^ 59) (h : Holds file headerSize gpu t p)
    (hsame : ∀ a, p ≤ a → a < p + allocLength headerSize t → gpu' a = gpu a) :
    Holds file headerSize gpu' t p := by
  intro j hj
  obtain ⟨f, n, l, hx⟩ := extent_covers hfile hS
  have hlength := hx.allocLength_eq
  have hcovered := hx.covered
  have hpage := hx.page
  have hnl := hx.buffer
  rw [hsame _ (by omega) (by omega)]
  exact h j hj

/-- The buffers that `cudaMalloc` returns in the rounds from `i` on do not overlap. -/
def BuffersApart (headerSize : Nat) (rounds : Nat → Round) (es : List (Text × TensorT)) (i : Nat) :
    Prop :=
  ∀ k k' e e' p p', k < k' → es[k]? = some e → es[k']? = some e' →
    (rounds (i + k)).cudaMalloc = some p → (rounds (i + k')).cudaMalloc = some p' →
    p + allocLength headerSize e.2 ≤ p' ∨ p' + allocLength headerSize e'.2 ≤ p

/-- The release of the newest registration. -/
theorem deregmem_newest {os : Os} (hos : os.Grants) (mb : MmapBuffer) {nd : MmapNode}
    {head : List MmapNode} (hmb : mb.head = nd :: head) (hini : mb.initialized = true)
    (hmapped : nd.isMapped = true) (hpos : 0 < nd.length)
    (hend : nd.gpuAddr + nd.length < 2 ^ 64) :
    (fgdsDeregmem os mb nd.gpuAddr nd.length).ret = 0 ∧
      (fgdsDeregmem os mb nd.gpuAddr nd.length).buffer = { mb with head } := by
  have hfind : findFgdsMmapNode mb.head nd.gpuAddr nd.length = some nd := by
    rw [hmb]
    exact selects_newest hend (Nat.le_refl _) (Nat.le_refl _) _ _ hpos (Nat.le_refl _)
  have hdel : deleteFgdsMmapNode mb.head nd = some head := by
    rw [hmb, deleteFgdsMmapNode, if_pos rfl]
  rw [fgdsDeregmem_found hfind rfl hmapped hdel]
  exact ⟨unmapLoop_granted hos hini _ _ _, rfl⟩

/-- One round reads its tensor into the buffer at `p`, and leaves the library and the rest of the
device as they were. -/
structure RoundDone (file : File) (headerSize : Nat) (e : Text × TensorT) (p : Nat)
    (s s' : LoopState) : Prop where
  initialized : s'.mb.initialized = true
  head : s'.mb.head = s.mb.head
  idle : Ring.Idle s'.ring
  total : s'.totalFileSize = u64 (s.totalFileSize + e.2.bytes)
  buffers : s'.buffers = s.buffers ++ [⟨e.1, p⟩]
  holds : Holds file headerSize s'.gpu e.2 p
  frame : ∀ a, a < p ∨ p + allocLength headerSize e.2 ≤ a → s'.gpu a = s.gpu a

theorem tensorRound_works (deviceId : Int) {c : Round} (i : Nat) (key : Text) {t : TensorT}
    (h : InFile headerSize (files fd).size t) (hS : (files fd).size < 2 ^ 59)
    (hworks : Works c (files fd).size (allocLength headerSize t)) {s : LoopState}
    (hini : s.mb.initialized = true) (hidle : Ring.Idle s.ring) :
    ∃ p s', c.cudaMalloc = some p ∧
      tensorRound deviceId fd files (files fd).size c i key (extent headerSize t) s = .inl s' ∧
      RoundDone (files fd) headerSize (key, t) p s s' := by
  obtain ⟨f, n, l, hx⟩ := extent_covers h hS
  obtain ⟨hbytes, hfits⟩ := h.end_le
  have hn := hx.pos
  have hnl := hx.buffer
  have hl := hx.small
  have hpage := hx.page
  have hlength := hx.allocLength_eq
  have hl64 : u64 (extent headerSize t).allocSize = l := u64_eq hx.allocSize (by omega)
  rw [hlength] at hworks
  generalize extent headerSize t = x at *
  obtain ⟨devPtr, hptr, hptrEnd⟩ := hworks.cudaMalloc
  -- the registration
  have hreg := fgdsRegmem_granted (d := deviceId) (a := devPtr) hworks.regmem hini hx.aligned
  obtain ⟨nd, hnd⟩ := fgdsRegmem_linked hreg
  have hlinked := hnd.buffer
  have hcount : nd.mmapCount < 2 ^ 31 := by
    rw [hnd.count, mmapCountOf_eq]
    omega
  have hregistered := hnd.registered (by omega) hcount hworks.apart
  have hend : nd.gpuAddr + nd.length < 2 ^ 64 := by
    rw [hnd.gpuAddr, hnd.length]
    exact hptrEnd
  have hin : 0 + n ≤ nd.length := by
    rw [hnd.length]
    omega
  -- the read
  let w : Window (nd :: s.mb.head) ⟨fd, devPtr, 0, x.alignedSize, x.alignedOffset, i⟩ :=
    { nd, b := 0, n, bufOffset := rfl, nbyte := hx.alignedSize, registered := hregistered,
      inside := hin
      selects := selects_newest hend (by rw [hnd.gpuAddr])
        (by rw [hnd.gpuAddr]; dsimp only; omega) _ }
  obtain ⟨res, cs, hres, hidle', hret, hperm, ht⟩ :=
    fgdsRead_window w hx.alignedOffset (by omega) hn hworks.kernel hidle
  obtain ⟨_, hread, _⟩ := reads_effect hregistered hin hperm ht ⟨c.mem, files⟩
  have hpos : 0 < res.ret := by
    rw [hret]
    show (0 : Int) < (min n ((files fd).size - f) : Nat)
    omega
  -- the release
  obtain ⟨hderet, hdebuffer⟩ := deregmem_newest hworks.deregmem
    { s.mb with deviceId, head := nd :: s.mb.head } rfl hini hnd.mapped
    (by rw [hnd.length]; omega) hend
  rw [hnd.gpuAddr, hnd.length] at hderet hdebuffer
  rw [← hl64] at hreg hlinked hderet hdebuffer
  have hskip : x.alignedOffset ≤ s64 (files fd).size := by
    rw [hx.alignedOffset, s64_eq (by omega) (by omega)]
    omega
  have hround := (tensorRound_read files key hskip hptr hreg hlinked hres).trans
    (afterRead_next files key hpos hderet hdebuffer)
  refine ⟨devPtr, _, hptr, hround, hini, rfl, hidle', ?_, rfl, fun j hj => ?_, fun a ha => ?_⟩
  · rw [hx.size]
  · have hcovered := hx.covered
    dsimp only at hj
    have hplace : t.start headerSize % 4096 + j < l := by omega
    have hthis := hread (t.start headerSize % 4096 + j) (by omega)
    rw [Nat.zero_add, ← Nat.add_assoc, hpage] at hthis
    rw [hx.allocSize]
    exact (gpuWrite_inside _ _ hplace).trans hthis
  · rw [hx.allocSize]
    exact gpuWrite_outside _ _ (hlength ▸ ha)

/-! ## All rounds -/

theorem u64_u64 (x : Int) : u64 (u64 x) = u64 x := by
  unfold u64
  omega

theorem u64_add_u64 (x y : Int) : u64 (u64 x + y) = u64 (x + y) := by
  unfold u64
  omega

/-- The tensors `es` are in the buffers `bs` of the rounds from `i` on. -/
def Loaded (file : File) (headerSize : Nat) (rounds : Nat → Round) (i : Nat) (gpu : Nat → UInt8)
    (es : List (Text × TensorT)) (bs : List DevBuffer) : Prop :=
  bs.length = es.length ∧ ∀ k e, es[k]? = some e → ∃ p, (rounds (i + k)).cudaMalloc = some p ∧
    bs[k]? = some ⟨e.1, p⟩ ∧ Holds file headerSize gpu e.2 p

/-- The addresses outside the buffers of the rounds from `i` on. -/
def Outside (headerSize : Nat) (rounds : Nat → Round) (i : Nat) (es : List (Text × TensorT))
    (a : Nat) : Prop :=
  ∀ k e p, es[k]? = some e → (rounds (i + k)).cudaMalloc = some p →
    a < p ∨ p + allocLength headerSize e.2 ≤ a

theorem Outside.tail {rounds : Nat → Round} {i a : Nat} {e : Text × TensorT}
    {es : List (Text × TensorT)} (h : Outside headerSize rounds i (e :: es) a) :
    Outside headerSize rounds (i + 1) es a := by
  intro k e' p he hp
  rw [Nat.add_right_comm] at hp
  exact h (k + 1) e' p he hp

theorem BuffersApart.tail {rounds : Nat → Round} {i : Nat} {e : Text × TensorT}
    {es : List (Text × TensorT)} (h : BuffersApart headerSize rounds (e :: es) i) :
    BuffersApart headerSize rounds es (i + 1) := by
  intro k k' e₁ e₂ p p' hk he he' hp hp'
  rw [Nat.add_right_comm] at hp hp'
  exact h (k + 1) (k' + 1) e₁ e₂ p p' (by omega) he he' hp hp'

/-- The buffer of the first round is not touched by the others. -/
theorem BuffersApart.outside {rounds : Nat → Round} {i p a : Nat} {e : Text × TensorT}
    {es : List (Text × TensorT)} (h : BuffersApart headerSize rounds (e :: es) i)
    (hp : (rounds i).cudaMalloc = some p) (hlo : p ≤ a) (hhi : a < p + allocLength headerSize e.2) :
    Outside headerSize rounds (i + 1) es a := by
  intro k e' p' he hp'
  rw [Nat.add_right_comm] at hp'
  have hapart := h 0 (k + 1) e e' p p' (by omega) rfl he hp hp'
  omega

theorem Loaded.cons {file : File} {rounds : Nat → Round} {i p : Nat} {gpu : Nat → UInt8}
    {e : Text × TensorT} {es : List (Text × TensorT)} {bs : List DevBuffer}
    (hp : (rounds i).cudaMalloc = some p) (he : Holds file headerSize gpu e.2 p)
    (h : Loaded file headerSize rounds (i + 1) gpu es bs) :
    Loaded file headerSize rounds i gpu (e :: es) (⟨e.1, p⟩ :: bs) := by
  refine ⟨congrArg (· + 1) h.1, fun k e' hk => ?_⟩
  cases k with
  | zero =>
    cases hk
    exact ⟨p, hp, rfl, he⟩
  | succ k =>
    obtain ⟨p', hp', hb, hholds⟩ := h.2 k e' hk
    rw [Nat.add_right_comm] at hp'
    exact ⟨p', hp', hb, hholds⟩

theorem tensorLoop_works (deviceId : Int) {rounds : Nat → Round} (hS : (files fd).size < 2 ^ 59)
    {es : List (Text × TensorT)} (hes : ∀ e ∈ es, InFile headerSize (files fd).size e.2) {i : Nat}
    (hworks : ∀ k e, es[k]? = some e →
      Works (rounds (i + k)) (files fd).size (allocLength headerSize e.2))
    (hapart : BuffersApart headerSize rounds es i) {s : LoopState}
    (hini : s.mb.initialized = true) (hidle : Ring.Idle s.ring)
    (htotal : u64 s.totalFileSize = s.totalFileSize) :
    ∃ s' bs, tensorLoop deviceId fd files (files fd).size headerSize rounds es i s =
        (.total (u64 (s.totalFileSize + (es.map fun e => e.2.bytes).sum)), s') ∧
      s'.mb.head = s.mb.head ∧ s'.buffers = s.buffers ++ bs ∧
      Loaded (files fd) headerSize rounds i s'.gpu es bs ∧
      ∀ a, Outside headerSize rounds i es a → s'.gpu a = s.gpu a := by
  induction es generalizing i s with
  | nil =>
    refine ⟨s, [], ?_, rfl, (List.append_nil _).symm, ⟨rfl, fun _ _ h => by simp at h⟩,
      fun _ _ => rfl⟩
    rw [tensorLoop, List.map_nil, List.sum_nil, Nat.cast_zero, Int.add_zero, htotal]
  | cons e es ih =>
    obtain ⟨key, t⟩ := e
    have hin := hes _ List.mem_cons_self
    have hnow : Works (rounds i) (files fd).size (allocLength headerSize t) :=
      hworks 0 (key, t) rfl
    obtain ⟨p, s₁, hp, hround, hdone⟩ :=
      tensorRound_works deviceId i key hin hS hnow hini hidle
    have hnext : ∀ k e, es[k]? = some e →
        Works (rounds (i + 1 + k)) (files fd).size (allocLength headerSize e.2) := by
      intro k e he
      rw [Nat.add_right_comm]
      exact hworks (k + 1) e he
    have htotal₁ : u64 s₁.totalFileSize = s₁.totalFileSize := by
      rw [hdone.total]
      exact u64_u64 _
    obtain ⟨s', bs, hloop, hhead, hbuffers, hloaded, hframe⟩ :=
      ih (fun e he => hes e (List.mem_cons_of_mem _ he)) hnext hapart.tail hdone.initialized
        hdone.idle htotal₁
    -- the later rounds leave the buffer of this one alone
    have hholds : Holds (files fd) headerSize s'.gpu t p :=
      hdone.holds.congr hin hS fun a hlo hhi => hframe a (hapart.outside hp hlo hhi)
    refine ⟨s', ⟨key, p⟩ :: bs, ?_, hhead.trans hdone.head, ?_, hloaded.cons hp hholds,
      fun a ha => ?_⟩
    · rw [tensorLoop, hround, Sum.elim_inl, hloop, hdone.total, u64_add_u64, List.map_cons,
        List.sum_cons, Nat.cast_add, Int.add_assoc]
    · rw [hbuffers, hdone.buffers, List.append_assoc, List.singleton_append]
    · exact (hframe a ha.tail).trans (hdone.frame a (ha 0 (key, t) p rfl hp))

end Round

/-! ## The whole file -/

theorem fileBytes_length (file : File) : (fileBytes file).length = file.size := by
  simp [fileBytes]

/-- What is mapped, and where its data buffer is. -/
theorem mmapFromFile_ok {N : Type} {double : Double N} {filename strerror : Text}
    {mmap : Nat → Bool} {isXds : Bool} {file : Bytes} {st : SafetensorsT} {err : Text}
    (h : mmapFromFile double filename strerror mmap isXds file = .ok (st, err)) :
    8 + st.headerSize ≤ file.length ∧ st.bufferSize = file.length - (8 + st.headerSize) := by
  unfold mmapFromFile at h
  split at h
  · cases h
  · split at h
    · cases h
    · unfold mmapFromMemory at h
      split at h
      · cases h
      · cases hparse : parseSafetensorsHeader double (mapped (mapLength isXds file) file)
          file.length with
        | error e =>
          rw [hparse] at h
          cases h
        | ok header =>
          rw [hparse] at h
          cases h
          obtain ⟨_, _, hfits, _, hjson⟩ := parseSafetensorsHeader_ok_iff.mp hparse
          rw [← parseJson_headerSize hjson] at hfits
          exact ⟨hfits, rfl⟩

theorem Placed.inFile {headerSize S : Nat} {t : TensorT} (hfits : 8 + headerSize ≤ S)
    (h : Placed (S - (8 + headerSize)) t) (hsize : t.size ≠ 0) : InFile headerSize S t := by
  have hinside := h.inside hsize
  have horder := UInt64.le_iff_toNat_le.mp h.order
  have hne : t.dataOffsets.1.toNat ≠ t.dataOffsets.2.toNat := by
    intro heq
    have hsame := UInt64.toNat_inj.mp heq
    have hexact := h.exact hsize
    rw [hsame, UInt64.sub_self] at hexact
    exact hsize hexact
  exact ⟨by omega, by omega⟩

/-- The tensors of an accepted file lie in it. -/
theorem inFile_of_valid {N : Type} {double : Double N} {filename strerror : Text}
    {mmap : Nat → Bool} {isXds : Bool} {file : File} {st : SafetensorsT} {err : Text}
    (hload : mmapFromFile double filename strerror mmap isXds (fileBytes file) = .ok (st, err))
    (hvalid : validateDataOffsets st = .ok ()) (hsize : ∀ e ∈ st.tensors.entries, e.2.size ≠ 0) :
    ∀ e ∈ st.tensors.entries, InFile st.headerSize file.size e.2 := by
  obtain ⟨hfits, hbuffer⟩ := mmapFromFile_ok hload
  rw [fileBytes_length] at hfits hbuffer
  have hplaced := placed_of_valid hvalid
  rw [hbuffer] at hplaced
  exact fun e he => (hplaced e he).inFile hfits (hsize e he)

/-- A file that is accepted, with no tensor of size 0: at the end each of its tensors is in the
buffer that `cudaMalloc` returned for it, the rest of the device is as before, and nothing stays
registered. -/
theorem tensors_on_device {N : Type} (double : Double N) (filename strerror : Text)
    (deviceId fd : Int) (files : Int → File) (mmap : Nat → Bool) (rounds : Nat → Round)
    (gpu : Nat → UInt8) {mb : MmapBuffer} {ring : Ring} {st : SafetensorsT} {err : Text}
    (hload : mmapFromFile double filename strerror mmap true (fileBytes (files fd)) =
      .ok (st, err))
    (hvalid : validateDataOffsets st = .ok ()) (hsize : ∀ e ∈ st.tensors.entries, e.2.size ≠ 0)
    (hS : (files fd).size < 2 ^ 59)
    (hworks : ∀ i e, st.tensors.entries[i]? = some e →
      Works (rounds i) (files fd).size (allocLength st.headerSize e.2))
    (hapart : BuffersApart st.headerSize rounds st.tensors.entries 0)
    (hini : mb.initialized = true) (hidle : Ring.Idle ring) :
    ∃ s, readTensorFgds deviceId fd files double filename strerror mmap rounds mb ring gpu =
        .ok (.total (u64 ((st.tensors.entries.map fun e => e.2.bytes).sum : Nat)), s) ∧
      s.mb.head = mb.head ∧
      Loaded (files fd) st.headerSize rounds 0 s.gpu st.tensors.entries s.buffers ∧
      ∀ a, Outside st.headerSize rounds 0 st.tensors.entries a → s.gpu a = gpu a := by
  have hin := inFile_of_valid hload hvalid hsize
  have hrounds : ∀ k e, st.tensors.entries[k]? = some e →
      Works (rounds (0 + k)) (files fd).size (allocLength st.headerSize e.2) := by
    intro k e he
    rw [Nat.zero_add]
    exact hworks k e he
  obtain ⟨s, bs, hloop, hhead, hbs, hloaded, hframe⟩ := tensorLoop_works deviceId hS hin hrounds
    hapart (s := ⟨mb, ring, 0, [], gpu⟩) hini hidle rfl
  rw [List.nil_append] at hbs
  refine ⟨s, ?_, hhead, hbs ▸ hloaded, hframe⟩
  rw [Nat.cast_zero, Int.zero_add] at hloop
  unfold readTensorFgds
  rw [hload]
  show (do
    validateDataOffsets st
    return _ : Except Text (Outcome × LoopState)) = _
  rw [hvalid]
  exact congrArg Except.ok hloop

/-- A file of two tensors, of two and of three bytes. -/
def pairBytes : Bytes :=
  Backend.packQ 120 ++
    ascii "\x7b\"a\": \x7b\"dtype\": \"U8\", \"shape\": [2], \"data_offsets\": [0, 2]\x7d, " ++
    ascii "\"b\": \x7b\"dtype\": \"U8\", \"shape\": [3], \"data_offsets\": [2, 5]\x7d\x7d" ++
    [7, 8, 9, 10, 11]

def pairFile : File where
  size := pairBytes.length
  byte y := pairBytes.getD y 0
  zero _ h := List.getD_eq_default _ _ h

theorem pairFile_size : pairFile.size = 133 := by decide +kernel

/-- Rounds with an operating system that grants everything; the buffers are 1 MB apart. -/
def plainRound (i : Nat) : Round :=
  ⟨some (1048576 * (i + 1)), plainOs (i + 1) 4294967296, plainKernel 133, fun _ => 0,
    plainOs (i + 1) 4294967296⟩

theorem plainRound_works {headerSize i : Nat} {t : TensorT} (h : InFile headerSize 133 t)
    (hi : i < 2 ^ 20) : Works (plainRound i) 133 (allocLength headerSize t) := by
  obtain ⟨f, n, l, hx⟩ := extent_covers h (by decide)
  have hlength := hx.allocLength_eq
  have hsmall := hx.small
  rw [hlength]
  refine ⟨⟨1048576 * (i + 1), rfl, by omega⟩, plainOs_grants _ _, plainOs_mapsApart _ _ _ ?_,
    plainKernel_reads 133, plainOs_grants _ _⟩
  rw [mmapCountOf_eq, fgdsMmapSegmentSize]
  omega

/-- What is parsed: the sizes of the tensors, where they are, and that they pass the check. -/
def pairParsed (st : SafetensorsT) : Bool :=
  (validateDataOffsets st).toOption.isSome && decide (st.headerSize = 120) &&
    decide (st.tensors.entries.map (fun e => (e.1, e.2.size, e.2.dataOffsets)) =
      [(ascii "a", 2, 0, 2), (ascii "b", 3, 2, 5)])

theorem pair_parsed :
    ((mmapFromFile wideDouble (ascii "f") [] (fun _ => true) true
      (fileBytes pairFile)).toOption.any fun r => pairParsed r.1) = true := by
  decide +kernel

/-- The two tensors in the order of the file. -/
theorem pairParsed_spec {st : SafetensorsT} (h : pairParsed st = true) :
    validateDataOffsets st = .ok () ∧ st.headerSize = 120 ∧ ∃ t t' : TensorT,
      st.tensors.entries = [(ascii "a", t), (ascii "b", t')] ∧ t.size = 2 ∧ t'.size = 3 ∧
        t.dataOffsets = (0, 2) ∧ t'.dataOffsets = (2, 5) := by
  rw [pairParsed, Bool.and_eq_true, Bool.and_eq_true, decide_eq_true_eq,
    decide_eq_true_eq] at h
  obtain ⟨⟨hvalid, hheader⟩, hentries⟩ := h
  refine ⟨?_, hheader, ?_⟩
  · cases hv : validateDataOffsets st with
    | ok _ => rfl
    | error e =>
      rw [hv] at hvalid
      cases hvalid
  · obtain ⟨⟨k, t⟩, es, hes, he, htail⟩ := List.map_eq_cons_iff.mp hentries
    obtain ⟨⟨k', t'⟩, es', rfl, he', hnil⟩ := List.map_eq_cons_iff.mp htail
    rw [List.map_eq_nil_iff] at hnil
    simp only [Prod.mk.injEq] at he he'
    obtain ⟨rfl, hsize, hoff⟩ := he
    obtain ⟨rfl, hsize', hoff'⟩ := he'
    exact ⟨t, t', hnil ▸ hes, hsize, hsize', hoff, hoff'⟩

theorem tensors_on_device_pair :
    ∃ s, readTensorFgds 0 3 (fun _ => pairFile) wideDouble (ascii "f") [] (fun _ => true)
        plainRound ⟨0, 5, true, []⟩ ⟨false, [], []⟩ (fun _ => 0) = .ok (.total 5, s) ∧
      s.mb.head = [] ∧ s.buffers = [⟨ascii "a", 1048576⟩, ⟨ascii "b", 2097152⟩] ∧
      (∀ j < 2, s.gpu (1048576 + 128 + j) = [7, 8].getD j 0) ∧
      ∀ j < 3, s.gpu (2097152 + 130 + j) = [9, 10, 11].getD j 0 := by
  have hparsed := pair_parsed
  cases hload : mmapFromFile wideDouble (ascii "f") [] (fun _ => true) true
      (fileBytes pairFile) with
  | error e =>
    rw [hload] at hparsed
    cases hparsed
  | ok r =>
    obtain ⟨st, err⟩ := r
    rw [hload] at hparsed
    obtain ⟨hvalid, hheader, t, t', hentries, hsize, hsize', hoff, hoff'⟩ :=
      pairParsed_spec hparsed
    have hsizes : ∀ e ∈ st.tensors.entries, e.2.size ≠ 0 := by
      rw [hentries]
      intro e he
      rcases List.mem_pair.mp he with rfl | rfl
      · exact hsize ▸ by decide
      · exact hsize' ▸ by decide
    have hin := inFile_of_valid hload hvalid hsizes
    have hworks : ∀ i e, st.tensors.entries[i]? = some e →
        Works (plainRound i) pairFile.size (allocLength st.headerSize e.2) := by
      intro i e he
      have hi := (List.getElem?_eq_some_iff.mp he).1
      rw [hentries, List.length_cons, List.length_singleton] at hi
      have hfile := hin e (List.mem_of_getElem? he)
      rw [pairFile_size] at hfile ⊢
      exact plainRound_works hfile (by omega)
    have hstart : t.start 120 = 128 ∧ t'.start 120 = 130 := by
      rw [TensorT.start, TensorT.start, hoff, hoff']
      decide
    have hbytes : t.bytes = 2 ∧ t'.bytes = 3 := by
      rw [TensorT.bytes, TensorT.bytes, hoff, hoff']
      decide
    have halloc : allocLength 120 t = 65536 ∧ allocLength 120 t' = 65536 := by
      rw [allocLength, allocLength, extent, extent, hoff, hoff']
      decide
    have hapart : BuffersApart st.headerSize plainRound st.tensors.entries 0 := by
      rw [hheader, hentries]
      intro k k' e e' p p' hk he he' hp hp'
      have hk' := (List.getElem?_eq_some_iff.mp he').1
      rw [List.length_cons, List.length_singleton] at hk'
      obtain rfl : k = 0 := by omega
      obtain rfl : k' = 1 := by omega
      cases he
      cases he'
      cases hp
      cases hp'
      rw [halloc.1]
      exact .inl (by decide)
    obtain ⟨s, hs, hhead, ⟨hlength, hloaded⟩, _⟩ := tensors_on_device wideDouble (ascii "f") [] 0 3
      (fun _ => pairFile) (fun _ => true) plainRound (fun _ => 0) hload hvalid hsizes
      (pairFile_size ▸ by decide) hworks hapart
      (rfl : (⟨0, 5, true, []⟩ : MmapBuffer).initialized = true)
      (⟨rfl, rfl⟩ : Ring.Idle ⟨false, [], []⟩)
    rw [hentries] at hs hlength hloaded
    rw [hheader] at hloaded
    obtain ⟨p, hp, hb, hholds⟩ := hloaded 0 _ rfl
    obtain ⟨p', hp', hb', hholds'⟩ := hloaded 1 _ rfl
    cases hp
    cases hp'
    refine ⟨s, ?_, hhead, ?_, fun j hj => ?_, fun j hj => ?_⟩
    · rw [hs, List.map_cons, List.map_cons, List.map_nil, hbytes.1, hbytes.2]
      rfl
    · obtain ⟨b, b', hbs⟩ := List.length_eq_two.mp hlength
      rw [hbs] at hb hb' ⊢
      rw [Option.some.inj hb, Option.some.inj hb']
    · have hbyte := hholds j (hbytes.1 ▸ hj)
      rw [hstart.1] at hbyte
      refine (congrArg s.gpu (by omega)).trans (hbyte.trans ?_)
      interval_cases j <;> decide +kernel
    · have hbyte := hholds' j (hbytes.2 ▸ hj)
      rw [hstart.2] at hbyte
      refine (congrArg s.gpu (by omega)).trans (hbyte.trans ?_)
      interval_cases j <;> decide +kernel

end Fgds.Safetensors
