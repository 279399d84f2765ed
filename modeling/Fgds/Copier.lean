import Fgds.Footprint
import Fgds.Regmem

/-!
# The safetensors copier

`FgdsFileCopier.submit_io` copies a file, from the 64KB boundary below the end of its
header on, into one GPU buffer: it registers the buffer and hands one read for each
block to a pool of threads. The three offsets of a block pass through
`fgds_file_reader::submit_read`, `_thread` and `FgdsWrapper::read`, each with an
argument order of its own, before they reach `fgds_read`, where the file offset and the
offset in the buffer have changed places. As long as the header is shorter than 64KB the
two are equal.

* `submitLoop_tiles`: the blocks cut the buffer, and what each of them asks for;
* `copies_file_iff`: every byte of the file gets to its place if and only if the header
  is shorter than 64KB.
-/

namespace Fgds.Copier

open Fgds.Lib.CInt Fgds.Lib.Tiling Fgds.Device Fgds.Xfer Fgds.Uring Fgds.Pipeline Fgds.ReadWrite
open Fgds.Storage Fgds.Transfer Fgds.Footprint Fgds.Regmem

/-! ## The way of a block to `fgds_read` -/

/-- `FgdsWrapper::read`: the request that `fgds_read` gets. -/
def wrapperRead (fd : Int) (buf length : Nat) (offset : Int) (ptrOff owner : Nat) : Req :=
  { fd, gpuBuf := buf, bufOffset := s64 offset, nbyte := s64 length, fOffset := s64 ptrOff, owner }

/-- `fgds_file_reader::_thread`. -/
def readerThread (threadId : Nat) (fd : Int) (devPtr length offset ptrOff : Nat) : Req :=
  wrapperRead fd devPtr length (s64 offset) ptrOff threadId

/-- `fgds_file_reader::submit_read`, for the read with number `id`. -/
def submitRead (id : Nat) (fd : Int) (dst offset length ptrOff : Nat) : Req :=
  readerThread id fd dst length offset ptrOff

/-- What the copier uses of `SafeTensorsMetadata`. -/
structure Metadata where
  headerLength : Nat
  sizeBytes : Nat
  deriving DecidableEq, Repr

/-- `ALIGN`. -/
def align : Nat := 64 * 1024

def Metadata.alignedOffset (m : Metadata) : Nat := m.headerLength - m.headerLength % align

def Metadata.alignedLength (m : Metadata) : Nat :=
  let length := m.sizeBytes - m.headerLength
  let headBytes := m.headerLength % align
  let tailBytes := (length + headBytes) % align
  if tailBytes > 0 then length + headBytes + (align - tailBytes) else length + headBytes

/-- The loop of `submit_io` from position `count` on. A block size of 0 would never get
to the end. -/
def submitLoop (fd : Int) (gbufPtr alignedOffset alignedLength maxCopyBlockSize id count : Nat) :
    List Req :=
  if count < alignedLength ∧ 0 < maxCopyBlockSize then
    let reqLen :=
      if alignedLength - count > maxCopyBlockSize then maxCopyBlockSize else alignedLength - count
    submitRead id fd (gbufPtr + count) (alignedOffset + count) reqLen count ::
      submitLoop fd gbufPtr alignedOffset alignedLength maxCopyBlockSize (id + 1) (count + reqLen)
  else []
termination_by alignedLength - count
decreasing_by split <;> omega

/-- `submit_io`: the reads it hands to the threads, for a buffer at `gbufPtr` and a
reader whose next number is `id`. -/
def submitIo (m : Metadata) (fd : Int) (gbufPtr maxCopyBlockSize id : Nat) : List Req :=
  submitLoop fd gbufPtr m.alignedOffset m.alignedLength maxCopyBlockSize id 0

/-- The reads, in the order in which they are completed, each with a kernel of its own. -/
def runReads (head : List MmapNode) (k : Nat → Kernel) : Ring → List Req → Option (List IoResult)
  | _, [] => some []
  | ring, r :: rs =>
    (fgdsRead head (k r.owner) ring r).bind fun res =>
      (runReads head k res.ring rs).map (res :: ·)

/-! ## The blocks -/

/-- The read of the `n` bytes at position `p` of the buffer, as it reaches `fgds_read`. -/
structure BlockAt (fd : Int) (gbufPtr alignedOffset : Nat) (p : Nat) (r : Req) : Prop where
  fd : r.fd = fd
  gpuBuf : r.gpuBuf = gbufPtr + p
  bufOffset : r.bufOffset = (alignedOffset + p : Nat)
  nbyte : r.nbyte = r.size
  fOffset : r.fOffset = p

/-- Where nothing overflows, the arguments arrive as they were passed. -/
theorem submitRead_eq (id : Nat) (fd : Int) (dst : Nat) {offset length ptrOff : Nat}
    (ho : offset < 2 ^ 63) (hl : length < 2 ^ 63) (hp : ptrOff < 2 ^ 63) :
    submitRead id fd dst offset length ptrOff = ⟨fd, dst, offset, length, ptrOff, id⟩ := by
  have hoff : s64 (offset : Nat) = offset := s64_eq (by omega) (by omega)
  have hlen : s64 (length : Nat) = length := s64_eq (by omega) (by omega)
  have hptr : s64 (ptrOff : Nat) = ptrOff := s64_eq (by omega) (by omega)
  rw [submitRead, readerThread, wrapperRead, hoff, hlen, hptr, hoff]

/-- The blocks cut the buffer into consecutive pieces. -/
theorem submitLoop_tiles (fd : Int) (gbufPtr : Nat) {alignedOffset alignedLength : Nat}
    (hl : alignedLength < 2 ^ 63) (hlt : alignedOffset + alignedLength ≤ 2 ^ 63)
    {maxCopyBlockSize : Nat} (hb : 0 < maxCopyBlockSize) (id count : Nat)
    (hc : count ≤ alignedLength) :
    Tiles Req.size (BlockAt fd gbufPtr alignedOffset) count alignedLength
      (submitLoop fd gbufPtr alignedOffset alignedLength maxCopyBlockSize id count) := by
  induction hm : alignedLength - count using Nat.strong_induction_on generalizing id count with
  | _ m ih =>
    rw [submitLoop]
    split
    swap
    · rw [tiles_nil]
      omega
    · rename_i hgo
      obtain ⟨n, hn, hpos, hle⟩ : ∃ n, (if alignedLength - count > maxCopyBlockSize then
          maxCopyBlockSize else alignedLength - count) = n ∧ 0 < n ∧ count + n ≤ alignedLength := by
        refine ⟨_, rfl, ?_⟩
        split <;> omega
      simp only [hn]
      rw [submitRead_eq id fd (gbufPtr + count) (by omega) (by omega) (by omega)]
      have hsize : Req.size ⟨fd, gbufPtr + count, (alignedOffset + count : Nat), n, count, id⟩ =
          n := u64_eq rfl (by omega)
      have htail := ih (alignedLength - (count + n)) (by omega) (id + 1) (count + n) hle rfl
      rw [tiles_cons, hsize]
      refine ⟨hpos, ⟨rfl, rfl, rfl, ?_, rfl⟩, htail⟩
      rw [hsize]

/-- The buffer holds the file from the aligned offset on, and ends at the next 64KB
boundary. -/
theorem Metadata.aligned_eq {m : Metadata} (h : m.headerLength < m.sizeBytes) :
    m.sizeBytes ≤ m.alignedOffset + m.alignedLength ∧
      (m.alignedOffset + m.alignedLength) % align = 0 ∧
      m.alignedOffset + m.alignedLength < m.sizeBytes + align := by
  unfold Metadata.alignedLength
  dsimp only
  split <;> rename_i htail <;> simp only [Metadata.alignedOffset, align] at * <;> omega

/-! ## What a copy should do -/

/-- Every byte of the file from the aligned offset on gets to its place in the buffer,
whatever the order in which the reads complete and their operations are carried out. -/
def FilesIn (m : Metadata) (head : List MmapNode) (nd : MmapNode) (ring : Ring) (fd : Int)
    (reqs : List Req) : Prop :=
  ∀ order : List Req, order.Perm reqs →
    ∀ k : Nat → Kernel, (∀ i, FullReads (k i) m.sizeBytes) →
      ∃ results, runReads head k ring order = some results ∧
        ∀ log : List Cqe, log.Perm (results.flatMap IoResult.log) →
          ∀ w : World, (w.files fd).size = m.sizeBytes →
            ∀ j, m.alignedOffset + j < m.sizeBytes →
              (w.applyAll log).mem (nd.hostAddr j) = (w.files fd).byte (m.alignedOffset + j)

/-- The windows the reads ask for are disjoint and cover the buffer. -/
def CoverBuffer (len : Nat) (reqs : List Req) : Prop :=
  reqs.Pairwise (fun r r' =>
      r.bufOffset + r.nbyte ≤ r'.bufOffset ∨ r'.bufOffset + r'.nbyte ≤ r.bufOffset) ∧
    ∀ j : Nat, j < len → ∃ r ∈ reqs, r.bufOffset ≤ j ∧ j < r.bufOffset + r.nbyte

structure CopiesFile (m : Metadata) (head : List MmapNode) (nd : MmapNode) (ring : Ring)
    (fd : Int) (reqs : List Req) : Prop where
  image : FilesIn m head nd ring fd reqs
  reads : CoverBuffer m.alignedLength reqs

theorem blockAt_of_mem {fd : Int} {gpuAddr A len : Nat} {reqs : List Req}
    (ht : Tiles Req.size (BlockAt fd gpuAddr A) 0 len reqs) {r : Req} (hr : r ∈ reqs) :
    ∃ p, p + r.size ≤ len ∧ 0 < r.size ∧ BlockAt fd gpuAddr A p r := by
  obtain ⟨p, _, hin, hpos, hat⟩ := tiles_mem ht hr
  exact ⟨p, hin, hpos, hat⟩

/-! ## Short headers -/

section Short

variable {nd : MmapNode} (hreg : nd.Registered) (hend : nd.gpuAddr + nd.length < 2 ^ 64)
  (rest : List MmapNode) {fd : Int} {S : Nat}
include hreg hend

/-- A block in its place is a window of the buffer. -/
def blockWindow {p : Nat} {r : Req} (hat : BlockAt fd nd.gpuAddr 0 p r)
    (hin : p + r.size ≤ nd.length) : Window (nd :: rest) r where
  nd := nd
  b := p
  n := r.size
  bufOffset := by rw [hat.bufOffset, Nat.zero_add]
  nbyte := hat.nbyte
  registered := hreg
  inside := hin
  selects := by
    rw [hat.gpuBuf]
    exact selects_newest hend (Nat.le_add_right _ _) (by omega) rest

/-- What a read of a block did: it carried out the pieces of the block. -/
def BlockDone (nd : MmapNode) (fd : Int) (S : Nat) (r : Req) (res : IoResult) : Prop :=
  ∀ p, BlockAt fd nd.gpuAddr 0 p r → ∃ cs : List Cqe, cs.Perm res.log ∧
    Tiles (fun c => c.sqe.len) (ReadAt nd fd 0 0 S) p (p + r.size) cs

theorem block_read {p : Nat} {r : Req} (hat : BlockAt fd nd.gpuAddr 0 p r) (hpos : 0 < r.size)
    (hin : p + r.size ≤ nd.length) {k : Kernel} (hk : FullReads k S) {ring : Ring}
    (hidle : Ring.Idle ring) :
    ∃ res, fgdsRead (nd :: rest) k ring r = some res ∧ Ring.Idle res.ring ∧
      BlockDone nd fd S r res := by
  have hlen := hreg.length_lt
  obtain ⟨res, cs, hres, hidle', _, hperm, ht⟩ := fgdsRead_window
    (blockWindow hreg hend rest hat hin) hat.fOffset (by omega) hpos hk hidle
  refine ⟨res, hres, hidle', fun p' hat' => ⟨cs, hperm, ?_⟩⟩
  obtain rfl : p = p' := by
    have h := hat.fOffset.symm.trans hat'.fOffset
    omega
  refine tiles_imp ht fun q c _ hq _ hc => ?_
  have hpos' : p + (q - p) = 0 + (q - 0) := by
    change p ≤ q at hq
    omega
  refine ⟨hc.opcode, hc.fd.trans hat.fd, hc.addr, hc.segment, ?_, fun h => ?_⟩
  · rw [hc.res, ← hpos']
    rfl
  · rw [hc.off h, ← hpos']
    rfl

/-- All reads, in any order. -/
theorem runReads_done {k : Nat → Kernel} (hk : ∀ i, FullReads (k i) S) {order : List Req}
    (hall : ∀ r ∈ order, ∃ p, p + r.size ≤ nd.length ∧ 0 < r.size ∧ BlockAt fd nd.gpuAddr 0 p r)
    {ring : Ring} (hidle : Ring.Idle ring) :
    ∃ results, runReads (nd :: rest) k ring order = some results ∧
      List.Forall₂ (BlockDone nd fd S) order results := by
  induction order generalizing ring with
  | nil => exact ⟨[], rfl, List.Forall₂.nil⟩
  | cons r order ih =>
    obtain ⟨p, hin, hpos, hat⟩ := hall r List.mem_cons_self
    obtain ⟨res, hres, hidle', hdone⟩ := block_read hreg hend rest hat hpos hin (hk r.owner) hidle
    obtain ⟨results, hrun, hrest⟩ := ih (fun r' hr' => hall r' (List.mem_cons_of_mem r hr')) hidle'
    refine ⟨res :: results, ?_, List.Forall₂.cons hdone hrest⟩
    rw [runReads, hres, Option.bind_some, hrun, Option.map_some]

omit hreg hend in
/-- The pieces of the blocks, put together. -/
theorem blocks_tiles {p q : Nat} {reqs : List Req} {results : List IoResult}
    (ht : Tiles Req.size (BlockAt fd nd.gpuAddr 0) p q reqs)
    (hdone : List.Forall₂ (BlockDone nd fd S) reqs results) :
    ∃ cs : List Cqe, cs.Perm (results.flatMap IoResult.log) ∧
      Tiles (fun c => c.sqe.len) (ReadAt nd fd 0 0 S) p q cs := by
  induction hdone generalizing p with
  | nil => exact ⟨[], List.Perm.refl _, ht⟩
  | cons hr _ ih =>
    obtain ⟨_, hat, hrest⟩ := ht
    obtain ⟨cs, hperm, hcs⟩ := hr p hat
    obtain ⟨ds, hperm', hds⟩ := ih hrest
    refine ⟨cs ++ ds, ?_, tiles_append hcs hds⟩
    rw [List.flatMap_cons]
    exact hperm.append hperm'

/-- With the offsets equal the copy is right. -/
theorem filesIn_of_tiles {m : Metadata} (hzero : m.alignedOffset = 0)
    (hsize : m.sizeBytes ≤ nd.length) {reqs : List Req}
    (ht : Tiles Req.size (BlockAt fd nd.gpuAddr 0) 0 nd.length reqs) {ring : Ring}
    (hidle : Ring.Idle ring) : FilesIn m (nd :: rest) nd ring fd reqs := by
  intro order hperm k hk
  obtain ⟨results, hrun, hdone⟩ := runReads_done hreg hend rest hk
    (fun r hr => blockAt_of_mem ht (hperm.mem_iff.mp hr)) hidle
  refine ⟨results, hrun, fun log hlog w hw j hj => ?_⟩
  -- back to the order of the blocks, in which their pieces cut the buffer
  obtain ⟨results', hdone', hperm'⟩ := List.perm_comp_forall₂ hperm.symm hdone
  obtain ⟨cs, hcs, htiles⟩ := blocks_tiles ht hdone'
  have hcslog : cs.Perm log :=
    (hcs.trans (hperm'.flatMap_right IoResult.log)).trans hlog.symm
  rw [show nd.length = 0 + nd.length by omega] at htiles
  obtain ⟨_, himage, _⟩ := reads_effect hreg (by omega) hcslog htiles w
  have hbyte := himage j (by omega)
  rw [Nat.zero_add] at hbyte
  rw [hzero, Nat.zero_add, hbyte]

omit hreg hend in
/-- And so are the windows. -/
theorem coverBuffer_of_tiles {reqs : List Req}
    (ht : Tiles Req.size (BlockAt fd nd.gpuAddr 0) 0 nd.length reqs) :
    CoverBuffer nd.length reqs := by
  refine ⟨tiles_pairwise ht fun p q r r' hr hr' hle => Or.inl ?_, fun j hj => ?_⟩
  · rw [hr.bufOffset, hr.nbyte, hr'.bufOffset]
    omega
  · obtain ⟨r, hr, p, _, hat, hp, hq⟩ := tiles_cover ht (Nat.zero_le j) hj
    refine ⟨r, hr, ?_, ?_⟩
    · rw [hat.bufOffset]
      omega
    · rw [hat.bufOffset, hat.nbyte]
      omega

end Short

/-! ## Long headers -/

section Long

variable {nd : MmapNode} (hreg : nd.Registered) (hend : nd.gpuAddr + nd.length < 2 ^ 64)
  (rest : List MmapNode) {fd : Int} {A : Nat} (hA : 0 < A) (hlt : A + nd.length ≤ 2 ^ 63)
include hreg hend hA hlt

/-- An SQE of a read that does not reach the first byte of the buffer. -/
def Misses (nd : MmapNode) (q : Sqe) : Prop :=
  q.opcode = .read ∧ ¬ (q.addr ≤ nd.hostAddr 0 ∧ nd.hostAddr 0 < q.addr + q.len)

/-- A block asks for a window that starts behind the aligned offset. -/
theorem block_touches {p : Nat} {r : Req} (hat : BlockAt fd nd.gpuAddr A p r)
    (hin : p + r.size ≤ nd.length) : Touches (nd :: rest) .read r (Misses nd) := by
  intro pos n es hn hle hes e he q hq
  have hoff : s64 (r.bufOffset + pos) = (A + p + pos : Nat) := by
    rw [hat.bufOffset, ← Nat.cast_add]
    exact s64_eq (by omega) (by omega)
  have hsel := selects_newest hend (Nat.le_add_right nd.gpuAddr p)
    (show nd.gpuAddr + p + n ≤ nd.gpuAddr + nd.length by omega) rest n hn (Nat.le_refl n)
  rw [hat.gpuBuf, hoff, fgdsDoXferAddr_some hsel] at hes
  obtain ⟨hinside, ht⟩ := xferWindow_accepted hreg hn (by omega) hes
  obtain ⟨p', hp', hq', hpos, haddr, hseg⟩ := tiles_mem ht he
  obtain ⟨hop, hqa, hql⟩ := hq
  refine ⟨hop, fun hx => ?_⟩
  rw [hqa, haddr] at hx
  have hj : nd.hostAddr 0 - nd.hostAddr p' < e.nbyte := by omega
  have hsame : nd.hostAddr 0 = nd.hostAddr (p' + (nd.hostAddr 0 - nd.hostAddr p')) := by
    rw [← nd.hostAddr_add hj hseg]
    omega
  have := hreg.hostAddr_inj hreg.pos (by omega) hsame
  omega

/-- No read reaches the first byte of the buffer. -/
theorem runReads_misses {S : Nat} {k : Nat → Kernel} (hk : ∀ i, FullReads (k i) S)
    {order : List Req}
    (hall : ∀ r ∈ order, ∃ p, p + r.size ≤ nd.length ∧ 0 < r.size ∧ BlockAt fd nd.gpuAddr A p r)
    {ring : Ring} (hsq : ∀ q ∈ ring.sq, Misses nd q) {results : List IoResult}
    (h : runReads (nd :: rest) k ring order = some results) :
    ∀ c ∈ results.flatMap IoResult.log, Did (Misses nd) S c := by
  induction order generalizing ring results with
  | nil =>
    cases h
    simp
  | cons r order ih =>
    obtain ⟨p, hin, hpos, hat⟩ := hall r List.mem_cons_self
    rw [runReads] at h
    obtain ⟨res, hres, hrest⟩ := Option.bind_eq_some_iff.mp h
    obtain ⟨results', hrun, rfl⟩ := Option.map_eq_some_iff.mp hrest
    have hoff := hat.bufOffset
    obtain ⟨hlog, hleft⟩ := fgdsRead_footprint (fun q hq => hq.1)
      (block_touches hreg hend rest hA hlt hat hin) (by omega) (by omega) hpos (hk r.owner) hsq hres
    intro c hc
    rw [List.flatMap_cons] at hc
    rcases List.mem_append.mp hc with hc | hc
    · exact hlog c hc
    · exact ih (fun r' hr' => hall r' (List.mem_cons_of_mem r hr')) hleft hrun c hc

/-- So the first byte of a file of ones never arrives. -/
theorem not_filesIn {m : Metadata} (hm : m.alignedOffset = A) (hsize : A < m.sizeBytes)
    {reqs : List Req} (ht : Tiles Req.size (BlockAt fd nd.gpuAddr A) 0 nd.length reqs)
    {ring : Ring} (hidle : Ring.Idle ring) : ¬ FilesIn m (nd :: rest) nd ring fd reqs := by
  intro h
  have hk : ∀ _ : Nat, FullReads (plainKernel m.sizeBytes) m.sizeBytes :=
    fun _ => plainKernel_reads m.sizeBytes
  obtain ⟨results, hrun, himage⟩ := h reqs (List.Perm.refl _) _ hk
  have hmiss := runReads_misses hreg hend rest hA hlt hk (fun r hr => blockAt_of_mem ht hr)
    (by simp [hidle.1]) hrun
  have hbyte := himage _ (List.Perm.refl _) (plainWorld m.sizeBytes) rfl 0 (by omega)
  rw [applyAll_footprint (fun q hq => hq.1) (fun q hq => hq.2) hmiss, hm] at hbyte
  simp only [plainWorld, Nat.add_zero, if_pos hsize] at hbyte
  exact absurd hbyte (by decide)

omit hreg hend hlt in
theorem not_coverBuffer {len : Nat} (hlen : 0 < len) {reqs : List Req}
    (ht : Tiles Req.size (BlockAt fd nd.gpuAddr A) 0 len reqs) : ¬ CoverBuffer len reqs := by
  rintro ⟨_, hcover⟩
  obtain ⟨r, hr, hle, _⟩ := hcover 0 hlen
  obtain ⟨p, _, _, _, hat⟩ := tiles_mem ht hr
  rw [hat.bufOffset] at hle
  omega

end Long

/-! ## Exactly when a copy is right -/

/-- **Copying.** After `fgds_regmem` registered the buffer, and with reads that get what
is available, `submit_io` copies the file if and only if its header is shorter than 64KB;
from there on neither half of the statement holds. -/
theorem copies_file_iff (m : Metadata) (hm : m.headerLength < m.sizeBytes)
    (hfile : m.sizeBytes < 2 ^ 63) {os : Os} {mb : MmapBuffer} {d : Int} {gbufPtr : Nat}
    {nd : MmapNode} (hl : Linked os mb d gbufPtr m.alignedLength nd)
    (hap : MapsApart os m.alignedLength) (hc : nd.mmapCount < 2 ^ 31)
    (hend : gbufPtr + m.alignedLength < 2 ^ 64) {ring : Ring} (hidle : Ring.Idle ring) (fd : Int)
    {maxCopyBlockSize : Nat} (hb : 1 ≤ maxCopyBlockSize) (id : Nat) :
    (CopiesFile m (fgdsRegmem os mb d gbufPtr m.alignedLength).buffer.head nd ring fd
        (submitIo m fd gbufPtr maxCopyBlockSize id) ↔ m.headerLength < align) ∧
    (align ≤ m.headerLength →
      ¬ FilesIn m (fgdsRegmem os mb d gbufPtr m.alignedLength).buffer.head nd ring fd
          (submitIo m fd gbufPtr maxCopyBlockSize id) ∧
        ¬ CoverBuffer m.alignedLength (submitIo m fd gbufPtr maxCopyBlockSize id)) := by
  obtain ⟨hle, hmod, hlt⟩ := Metadata.aligned_eq hm
  have hA : m.alignedOffset ≤ m.headerLength := Nat.sub_le _ _
  have hreg : nd.Registered := hl.registered (by omega) hc hap
  have hlen := hreg.length_lt
  have hround : m.alignedOffset + nd.length ≤ 2 ^ 63 := by
    rw [hl.length]
    simp only [align] at hmod hlt
    omega
  have ht : Tiles Req.size (BlockAt fd nd.gpuAddr m.alignedOffset) 0 nd.length
      (submitIo m fd gbufPtr maxCopyBlockSize id) := by
    rw [hl.gpuAddr, submitIo, ← hl.length]
    exact submitLoop_tiles fd gbufPtr (by omega) hround hb id 0 (Nat.zero_le _)
  have hend' : nd.gpuAddr + nd.length < 2 ^ 64 := by
    rw [hl.gpuAddr, hl.length]
    exact hend
  have hlong : align ≤ m.headerLength →
      ¬ FilesIn m (nd :: mb.head) nd ring fd (submitIo m fd gbufPtr maxCopyBlockSize id) ∧
        ¬ CoverBuffer nd.length (submitIo m fd gbufPtr maxCopyBlockSize id) := by
    intro hh
    have hpos : 0 < m.alignedOffset := by
      simp only [Metadata.alignedOffset, align] at *
      omega
    exact ⟨not_filesIn hreg hend' mb.head hpos hround rfl (by omega) ht hidle,
      not_coverBuffer hpos hreg.pos ht⟩
  rw [hl.buffer, ← hl.length]
  refine ⟨⟨fun h => ?_, fun hh => ?_⟩, hlong⟩
  · by_contra hh
    exact (hlong (Nat.le_of_not_lt hh)).1 h.image
  · have hzero : m.alignedOffset = 0 := by
      simp only [Metadata.alignedOffset, align] at *
      omega
    rw [hzero] at ht
    refine ⟨filesIn_of_tiles hreg hend' mb.head hzero ?_ ht hidle, ?_⟩
    · rw [hl.length]
      omega
    · rw [← hl.length]
      exact coverBuffer_of_tiles ht

/-- A file of 100000 bytes with a header of 1000, in blocks of 4096. -/
theorem copies_file_short : ∃ nd,
    CopiesFile ⟨1000, 100000⟩
      (fgdsRegmem (plainOs 1 4294967296) ⟨0, 3, true, []⟩ 0 1048576 131072).buffer.head nd
      ⟨false, [], []⟩ 5 (submitIo ⟨1000, 100000⟩ 5 1048576 4096 0) := by
  obtain ⟨nd, hl⟩ : ∃ nd, Linked (plainOs 1 4294967296) ⟨0, 3, true, []⟩ 0 1048576
      (Metadata.alignedLength ⟨1000, 100000⟩) nd :=
    fgdsRegmem_linked (fgdsRegmem_granted (plainOs_grants _ _) rfl (by decide))
  refine ⟨nd, (copies_file_iff ⟨1000, 100000⟩ (by decide) (by decide) hl
    (plainOs_mapsApart _ _ _ (by decide)) ?_ (by decide) ⟨rfl, rfl⟩ 5 (by decide) 0).1.mpr
    (by decide)⟩
  rw [hl.count]
  decide

/-- A header of 64KB, 128KB of tensors and blocks of 64KB. The first read puts the start
of the file 64KB into the buffer, and the second is refused. -/
theorem swapped_offsets :
    submitIo ⟨65536, 196608⟩ 5 1048576 65536 0 =
        [⟨5, 1048576, 65536, 65536, 0, 0⟩, ⟨5, 1114112, 131072, 65536, 65536, 1⟩] ∧
      ((runReads [oneSegment 1 4294967296 1048576 131072] (fun _ => plainKernel 196608)
        ⟨false, [], []⟩ (submitIo ⟨65536, 196608⟩ 5 1048576 65536 0)).map fun results =>
          results.map fun res => (res.ret, res.log)) =
        some [(65536, [⟨⟨.read, 5, 4295032832, 65536, 0, 0⟩, 65536⟩]), (-1, [])] ∧
      ¬ CopiesFile ⟨65536, 196608⟩ [oneSegment 1 4294967296 1048576 131072]
        (oneSegment 1 4294967296 1048576 131072) ⟨false, [], []⟩ 5
        (submitIo ⟨65536, 196608⟩ 5 1048576 65536 0) := by
  have hreqs : submitIo ⟨65536, 196608⟩ 5 1048576 65536 0 =
      [⟨5, 1048576, 65536, 65536, 0, 0⟩, ⟨5, 1114112, 131072, 65536, 65536, 1⟩] := by
    decide +kernel
  refine ⟨hreqs, by decide +kernel, fun h => ?_⟩
  obtain ⟨r, hr, hle, _⟩ := h.reads.2 0 (by decide)
  rw [hreqs] at hr
  simp only [List.mem_cons, List.not_mem_nil, or_false] at hr
  rcases hr with rfl | rfl
  · exact absurd hle (by decide)
  · exact absurd hle (by decide)

end Fgds.Copier
