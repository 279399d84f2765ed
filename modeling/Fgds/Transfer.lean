import Fgds.Pipeline
import Fgds.ReadWrite
import Fgds.Storage

/-!
# A transfer moves the window

`fgds_read` and `fgds_write` on a window inside a registered region, with a kernel that
transfers what is available (reads) or everything (writes), in any completion order:

* `fgdsRead_window`, `fgdsWrite_window`: on either path the call carries out the pieces
  of an exact partition of the window, if nothing is left in the ring; on the direct path
  (`fgdsReadDirect_window`, `fgdsWriteDirect_window`) the ring does not matter;
* `ReadsWindow`, `readsWindow_of`: `fgds_read` returns the number of bytes the file has there,
  the window holds them, and no other byte changed;
* `RoundTrips`, `roundTrips_of`: writing a window of one region and reading it into a window
  of another copies it.
-/

namespace Fgds.Transfer

open Fgds.Lib.CInt Fgds.Lib.Tiling Fgds.Device Fgds.Xfer Fgds.Uring Fgds.Pipeline Fgds.ReadWrite
open Fgds.Storage

/-! ## Kernels that do their work -/

/-- The ring can be set up, and every read gets the bytes that are available. -/
structure FullReads (k : Kernel) (S : Nat) : Prop where
  queueInit : 0 ≤ k.queueInit
  direct : ∀ i q, q.opcode = .read → k.rw i q = available S q
  batch : ∀ i, Fair (k.batch i)
  cqe : ∀ i qs, ∀ c ∈ (k.batch i).complete qs, c.sqe.opcode = .read → c.res = available S c.sqe

/-- The ring can be set up, and every write transfers its full length. -/
structure FullWrites (k : Kernel) : Prop where
  queueInit : 0 ≤ k.queueInit
  direct : ∀ i q, q.opcode = .write → k.rw i q = q.len
  batch : ∀ i, Fair (k.batch i)
  cqe : ∀ i qs, ∀ c ∈ (k.batch i).complete qs, c.sqe.opcode = .write → c.res = c.sqe.len

/-- What has been read at position `p` of the window, and what the piece there adds to it. -/
theorem read_next {b f S p n : Nat} (hp : b ≤ p) :
    min (p - b) (S - f) + min n (S - (f + (p - b))) = min (p + n - b) (S - f) := by
  obtain ⟨k, rfl⟩ := Nat.exists_eq_add_of_le hp
  rw [Nat.add_assoc, Nat.add_sub_cancel_left, Nat.add_sub_cancel_left]
  omega

/-! ## The direct path -/

section Direct

variable {head : List MmapNode} {r : Req} (w : Window head r) {f : Nat} (hfo : r.fOffset = f)
  (hf : f < 2 ^ 63)
include hfo hf

/-- The read loop from position `p` of the window on. After a short read the offset
stays behind, but then nothing is available there either. -/
theorem readLoop_tiles {rw : Nat → Sqe → Int} {S : Nat}
    (hrw : ∀ i q, q.opcode = .read → rw i q = available S q) {es : List XferAddr} {p : Nat}
    (ht : Tiles XferAddr.nbyte (XferAddr.At w.nd) p (w.b + w.n) es) (hp : w.b ≤ p) (i : Nat) :
    ∃ log, readLoop rw r es i (min (p - w.b) (S - f) : Nat) =
        (((min w.n (S - f) : Nat) : Int), log) ∧
      Tiles (fun c => c.sqe.len) (ReadAt w.nd r.fd w.b f S) p (w.b + w.n) log := by
  induction es generalizing p i with
  | nil =>
    rw [tiles_nil] at ht
    refine ⟨[], ?_, ht⟩
    rw [readLoop, ht, Nat.add_sub_cancel_left]
  | cons e es ih =>
    obtain ⟨hpos, hat, hrest⟩ := ht
    have hle := tiles_le hrest
    have hlt := w.length_lt
    have hoff : (segmentSqe .read r e (min (p - w.b) (S - f) : Nat)).off =
        f + min (p - w.b) (S - f) := by
      rw [segmentSqe, u64_s64, hfo, ← Nat.cast_add]
      exact u64_eq rfl (by omega)
    have hret : rw i (segmentSqe .read r e (min (p - w.b) (S - f) : Nat)) =
        (min e.nbyte (S - (f + (p - w.b))) : Nat) := by
      rw [hrw i _ rfl, available, hoff]
      dsimp only [segmentSqe]
      omega
    obtain ⟨log, hlog, htiles⟩ := ih hrest (by omega) (i + 1)
    refine ⟨⟨segmentSqe .read r e (min (p - w.b) (S - f) : Nat),
      (min e.nbyte (S - (f + (p - w.b))) : Nat)⟩ :: log, ?_, hpos,
      ⟨rfl, rfl, hat.1, hat.2, rfl, fun h => ?_⟩, htiles⟩
    · rw [readLoop_next es hret (by omega), ← Nat.cast_add, read_next hp, hlog]
    · rw [hoff]
      dsimp only [segmentSqe] at h
      omega

omit hfo hf in
/-- The write loop from position `p` of the window on: everything is written in full, or the
loop gives up at the first piece that was not. -/
theorem writeLoop_window {rw : Nat → Sqe → Int}
    (hrw : ∀ i q, q.opcode = .write → -1 ≤ rw i q ∧ rw i q ≤ q.len) {es : List XferAddr} {p : Nat}
    (ht : Tiles XferAddr.nbyte (XferAddr.At w.nd) p (w.b + w.n) es) (hp : w.b ≤ p) (i : Nat) :
    (writeLoop rw r es i (p - w.b)).1 = w.n ∧ Tiles (fun c => c.sqe.len)
        (fun p c => SqeAt w .write p c.sqe ∧ c.res = c.sqe.len) p (w.b + w.n)
        (writeLoop rw r es i (p - w.b)).2 ∨
      (writeLoop rw r es i (p - w.b)).1 = -1 ∧ ∃ j q, q.opcode = .write ∧ rw j q ≠ q.len ∧
        ⟨q, rw j q⟩ ∈ (writeLoop rw r es i (p - w.b)).2 := by
  have hlt := w.length_lt
  induction es generalizing p i with
  | nil =>
    rw [tiles_nil] at ht
    refine .inl ⟨?_, ht⟩
    rw [writeLoop, ht, Nat.add_sub_cancel_left, s64_eq (by omega) (by omega)]
  | cons e es ih =>
    obtain ⟨hpos, hat, hrest⟩ := ht
    have hle := tiles_le hrest
    have hres := hrw i (segmentSqe .write r e (p - w.b : Nat)) rfl
    by_cases hfull : rw i (segmentSqe .write r e (p - w.b : Nat)) = e.nbyte
    · have hnext : p - w.b + e.nbyte = p + e.nbyte - w.b := by omega
      rw [writeLoop_next es hfull hat.nbyte_le (by omega), hnext]
      rcases ih hrest (by omega) (i + 1) with ⟨hall, htiles⟩ | ⟨herr, j, q, hq, hshort, hmem⟩
      · exact .inl ⟨hall, hpos, ⟨⟨rfl, rfl, rfl, hat.1, u64_s64 _, hat.2⟩, rfl⟩, htiles⟩
      · exact .inr ⟨herr, j, q, hq, hshort, List.mem_cons_of_mem _ hmem⟩
    · rw [writeLoop_stop es rfl hat.nbyte_le hres.1 hres.2 hfull]
      exact .inr ⟨rfl, i, _, rfl, hfull, List.mem_singleton_self _⟩

omit hfo hf in
/-- The segment list of the whole window. -/
theorem window_segments (hn : 0 < w.n) :
    ∃ es, fgdsDoXferAddr head r.gpuBuf r.bufOffset r.size = some es ∧
      Tiles XferAddr.nbyte (XferAddr.At w.nd) w.b (w.b + w.n) es := by
  obtain ⟨es, hes, ht, _⟩ := xferWindow_inside w.registered hn w.inside
  refine ⟨es, ?_, ht⟩
  rw [w.size, fgdsDoXferAddr_some (w.selects w.n hn (Nat.le_refl _)), w.bufOffset, hes]

end Direct

/-! ## The pipeline -/

section Pipelined

variable {head : List MmapNode} {r : Req} (w : Window head r)

/-- Whatever the ring was, the pipeline runs on an idle one. -/
theorem fgdsPipeline_window (op : Opcode) {k : Kernel} {ring : Ring}
    (hinit : ring.uringInit = true ∨ 0 ≤ k.queueInit) (hs : ∀ i, Fair (k.batch i))
    (hidle : Ring.Idle ring) :
    ∃ res ring', fgdsPipeline head op k ring r = some res ∧ Ring.Idle ring' ∧
      CallDone w op k.batch ring' 0 0 res := by
  unfold fgdsPipeline
  cases hring : ring.uringInit with
  | true =>
    obtain ⟨res, hres, hcall⟩ := uringLoop_window w op hs hidle 0 (Nat.zero_le _) 0
    exact ⟨res, ring, hres, hidle, hcall⟩
  | false =>
    have hqueue : 0 ≤ k.queueInit := by simpa [hring] using hinit
    obtain ⟨res, hres, hcall⟩ :=
      uringLoop_window w op hs (⟨rfl, rfl⟩ : Ring.Idle ⟨true, [], []⟩) 0 (Nat.zero_le _) 0
    refine ⟨res, ⟨true, [], []⟩, ?_, ⟨rfl, rfl⟩, hcall⟩
    rw [if_neg (by simp), if_neg (by omega), hres]

theorem callDone_opcode {op : Opcode} {batch : Nat → Sched} {ring : Ring} {res : IoResult}
    (h : CallDone w op batch ring 0 0 res) {c : Cqe} (hc : c ∈ res.log) : c.sqe.opcode = op := by
  obtain ⟨m, qs, _, ht, hperm, _⟩ := h.tiles
  obtain ⟨_, _, _, _, hat⟩ := tiles_mem ht (hperm.mem_iff.mp (List.mem_map_of_mem hc))
  exact hat.opcode

/-- If no operation fails the log is a partition of the whole window, up to its order. -/
theorem callDone_pieces {op : Opcode} {batch : Nat → Sched} {ring : Ring} {res : IoResult}
    (h : CallDone w op batch ring 0 0 res) (hok : ∀ c ∈ res.log, 0 ≤ c.res) :
    ∃ cs, cs.Perm res.log ∧
      Tiles (fun c => c.sqe.len) (fun p c => SqeAt w op p c.sqe) w.b (w.b + w.n) cs := by
  obtain ⟨m, qs, _, ht, hperm, hall⟩ := h.tiles
  obtain ⟨cs, hcs, rfl⟩ := exists_perm_of_map_perm hperm
  rw [hall hok, Nat.add_zero, tiles_map] at ht
  exact ⟨cs, hcs, ht⟩

/-- The pieces of a read add up to what the file has. -/
theorem sumRes_reads {nd : MmapNode} {fd : Int} {b f S p q : Nat} {cs : List Cqe}
    (ht : Tiles (fun c => c.sqe.len) (ReadAt nd fd b f S) p q cs) (hp : b ≤ p) :
    (min (p - b) (S - f) : Nat) + sumRes cs = (min (q - b) (S - f) : Nat) := by
  induction cs generalizing p with
  | nil =>
    rw [tiles_nil] at ht
    rw [ht, sumRes_nil, Int.add_zero]
  | cons c cs ih =>
    obtain ⟨hpos, hat, hrest⟩ := ht
    have hsum := ih hrest (Nat.le_add_right_of_le hp)
    rw [sumRes_cons, ← Int.add_assoc, hat.res, ← Nat.cast_add, read_next hp, hsum]

/-- Pieces that were transferred in full add up to the window. -/
theorem sumRes_full {At : Nat → Cqe → Prop} {p q : Nat} {cs : List Cqe}
    (ht : Tiles (fun c => c.sqe.len) At p q cs) (hfull : ∀ c ∈ cs, c.res = c.sqe.len) :
    p + sumRes cs = q := by
  induction cs generalizing p with
  | nil =>
    rw [tiles_nil] at ht
    rw [ht, sumRes_nil, Int.add_zero]
  | cons c cs ih =>
    have hsum := ih ht.2.2 fun d hd => hfull d (List.mem_cons_of_mem c hd)
    rw [sumRes_cons, hfull c List.mem_cons_self]
    push_cast at hsum
    omega

end Pipelined

/-! ## Both paths -/

section Calls

variable {head : List MmapNode} {r : Req} (w : Window head r) {f : Nat} (hfo : r.fOffset = f)
  (hf : f < 2 ^ 63) {k : Kernel} {ring : Ring}
include hfo hf

/-- The file offset of a piece, as the kernel gets it. -/
theorem sqeAt_off {op : Opcode} {p : Nat} {q : Sqe} (hat : SqeAt w op p q)
    (hp : p ≤ w.b + w.n) : q.off = f + (p - w.b) := by
  have hlt := w.length_lt
  rw [hat.off, hfo, ← Nat.cast_add]
  exact u64_eq rfl (by omega)

/-- SQEs of the window whose reads got what was available are the pieces of a read. -/
theorem readAt_of_sqeAt {S : Nat} {cs : List Cqe}
    (ht : Tiles (fun c => c.sqe.len) (fun p c => SqeAt w .read p c.sqe) w.b (w.b + w.n) cs)
    (havail : ∀ c ∈ cs, c.res = available S c.sqe) :
    Tiles (fun c => c.sqe.len) (ReadAt w.nd r.fd w.b f S) w.b (w.b + w.n) cs := by
  refine tiles_imp ht fun p c hc _ hq hat => ?_
  have hoff := sqeAt_off w hfo hf hat (Nat.le_of_add_right_le hq)
  refine ⟨hat.opcode, hat.fd, hat.addr, hat.segment, ?_, fun _ => hoff⟩
  rw [havail c hc, available, hoff]

/-- SQEs of the window that were written in full are the pieces of a write. -/
theorem writeAt_of_sqeAt {cs : List Cqe}
    (ht : Tiles (fun c => c.sqe.len) (fun p c => SqeAt w .write p c.sqe ∧ c.res = c.sqe.len) w.b
      (w.b + w.n) cs) :
    Tiles (fun c => c.sqe.len) (WriteAt w.nd r.fd w.b f) w.b (w.b + w.n) cs := by
  refine tiles_imp ht fun p c _ _ hq hat => ?_
  have hoff := sqeAt_off w hfo hf hat.1 (Nat.le_of_add_right_le hq)
  exact ⟨hat.1.opcode, hat.1.fd, hat.1.addr, hat.1.segment, hat.2, hoff⟩

/-- The direct read, whatever is in the ring. -/
theorem fgdsReadDirect_window (ring : Ring) (hn : 0 < w.n) {S : Nat}
    (hrw : ∀ i q, q.opcode = .read → k.rw i q = available S q) :
    (fgdsReadDirect head k ring r).ring = ring ∧
      (fgdsReadDirect head k ring r).ret = (min w.n (S - f) : Nat) ∧
      Tiles (fun c => c.sqe.len) (ReadAt w.nd r.fd w.b f S) w.b (w.b + w.n)
        (fgdsReadDirect head k ring r).log := by
  obtain ⟨es, hes, ht⟩ := window_segments w hn
  obtain ⟨log, hlog, htiles⟩ := readLoop_tiles w hfo hf hrw ht (Nat.le_refl _) 0
  rw [Nat.sub_self, Nat.zero_min] at hlog
  have hloop : readLoop k.rw r es 0 0 = (((min w.n (S - f) : Nat) : Int), log) := hlog
  simp only [fgdsReadDirect, hes, hloop]
  exact ⟨trivial, trivial, htiles⟩

/-- The direct write, whatever is in the ring. -/
theorem fgdsWriteDirect_window (ring : Ring) (hn : 0 < w.n)
    (hrw : ∀ i q, q.opcode = .write → k.rw i q = q.len) :
    (fgdsWriteDirect head k ring r).ring = ring ∧ (fgdsWriteDirect head k ring r).ret = w.n ∧
      Tiles (fun c => c.sqe.len) (WriteAt w.nd r.fd w.b f) w.b (w.b + w.n)
        (fgdsWriteDirect head k ring r).log := by
  obtain ⟨es, hes, ht⟩ := window_segments w hn
  have hbound : ∀ i q, q.opcode = .write → -1 ≤ k.rw i q ∧ k.rw i q ≤ q.len := by
    intro i q hq
    rw [hrw i q hq]
    omega
  have hloop := writeLoop_window w hbound ht (Nat.le_refl _) 0
  rw [Nat.sub_self] at hloop
  rcases hloop with ⟨hall, htiles⟩ | ⟨_, j, q, hq, hshort, _⟩
  · simp only [fgdsWriteDirect, hes]
    exact ⟨trivial, hall, writeAt_of_sqeAt w hfo hf htiles⟩
  · exact absurd (hrw j q hq) hshort

/-- A read carries out the pieces of the window, whichever path it takes, and returns
the number of bytes the file has for it. -/
theorem fgdsRead_window (hn : 0 < w.n) {S : Nat} (hk : FullReads k S) (hidle : Ring.Idle ring) :
    ∃ res cs, fgdsRead head k ring r = some res ∧ Ring.Idle res.ring ∧
      res.ret = (min w.n (S - f) : Nat) ∧ cs.Perm res.log ∧
      Tiles (fun c => c.sqe.len) (ReadAt w.nd r.fd w.b f S) w.b (w.b + w.n) cs := by
  unfold fgdsRead
  split
  · obtain ⟨hring, hret, ht⟩ := fgdsReadDirect_window w hfo hf ring hn hk.direct
    exact ⟨_, _, rfl, by rw [hring]; exact hidle, hret, List.Perm.refl _, ht⟩
  · obtain ⟨res, ring', hres, hidle', hcall⟩ :=
      fgdsPipeline_window w .read (.inr hk.queueInit) hk.batch hidle
    have havail : ∀ c ∈ res.log, c.res = available S c.sqe := by
      intro c hc
      obtain ⟨i, qs, hmem⟩ := hcall.source c hc
      exact hk.cqe i qs c hmem (callDone_opcode w hcall hc)
    have hok : ∀ c ∈ res.log, 0 ≤ c.res := fun c hc => by
      rw [havail c hc]
      omega
    obtain ⟨cs, hcs, ht⟩ := callDone_pieces w hcall hok
    have ht' := readAt_of_sqeAt w hfo hf ht fun c hc => havail c (hcs.mem_iff.mp hc)
    have hsum := sumRes_reads ht' (Nat.le_refl _)
    refine ⟨res, cs, hres, hcall.ring ▸ hidle', ?_, hcs, ht'⟩
    rw [hcall.total hok, ← sumRes_perm hcs]
    simp only [Nat.sub_self, Nat.zero_min, Nat.add_sub_cancel_left] at hsum
    omega

/-- A write carries out the pieces of the window in full and returns its length. -/
theorem fgdsWrite_window (hn : 0 < w.n) (hk : FullWrites k) (hidle : Ring.Idle ring) :
    ∃ res cs, fgdsWrite head k ring r = some res ∧ Ring.Idle res.ring ∧ res.ret = w.n ∧
      cs.Perm res.log ∧
      Tiles (fun c => c.sqe.len) (WriteAt w.nd r.fd w.b f) w.b (w.b + w.n) cs := by
  unfold fgdsWrite
  split
  · obtain ⟨hring, hret, ht⟩ := fgdsWriteDirect_window w hfo hf ring hn hk.direct
    exact ⟨_, _, rfl, by rw [hring]; exact hidle, hret, List.Perm.refl _, ht⟩
  · obtain ⟨res, ring', hres, hidle', hcall⟩ :=
      fgdsPipeline_window w .write (.inr hk.queueInit) hk.batch hidle
    have hfull : ∀ c ∈ res.log, c.res = c.sqe.len := by
      intro c hc
      obtain ⟨i, qs, hmem⟩ := hcall.source c hc
      exact hk.cqe i qs c hmem (callDone_opcode w hcall hc)
    have hok : ∀ c ∈ res.log, 0 ≤ c.res := fun c hc => by
      rw [hfull c hc]
      omega
    obtain ⟨cs, hcs, ht⟩ := callDone_pieces w hcall hok
    have ht' := tiles_imp ht fun p c hc _ _ hat =>
      (⟨hat, hfull c (hcs.mem_iff.mp hc)⟩ : SqeAt w .write p c.sqe ∧ c.res = c.sqe.len)
    have hsum := sumRes_full ht' fun c hc => hfull c (hcs.mem_iff.mp hc)
    refine ⟨res, cs, hres, hcall.ring ▸ hidle', ?_, hcs, writeAt_of_sqeAt w hfo hf ht'⟩
    rw [hcall.total hok, ← sumRes_perm hcs]
    push_cast at hsum
    omega

end Calls

/-! ## Devices between calls -/

/-- A device with disjoint regions whose ring is idle, as every call with a window
inside a region leaves it. -/
structure ReadyDevice extends OpenDevice where
  ring : Ring
  idle : Ring.Idle ring

section Device

variable (dev : OpenDevice) {nd : MmapNode} (fd : Int) (owner : Nat) {b n f : Nat}

/-- The window of a request on the base of a region. -/
def baseWindow (f : Nat) (hnd : nd ∈ dev.head) (hin : b + n ≤ nd.length) :
    Window dev.head ⟨fd, nd.gpuAddr, b, n, f, owner⟩ where
  nd := nd
  b := b
  n := n
  bufOffset := rfl
  nbyte := rfl
  registered := dev.registered nd hnd
  inside := hin
  selects := dev.selects hnd (Nat.le_refl _) (by simp only; omega)

abbrev ReadyDevice.window (dev : ReadyDevice) (f : Nat) (hnd : nd ∈ dev.head)
    (hin : b + n ≤ nd.length) : Window dev.head ⟨fd, nd.gpuAddr, b, n, f, owner⟩ :=
  baseWindow dev.toOpenDevice fd owner f hnd hin

/-! ## What is expected of a read, and of a round trip -/

/-- `fgds_read` on the base of a region and a window inside it returns the number of bytes the
file has there; the window holds those bytes; nothing else changed. -/
def ReadsWindow (head : List MmapNode) (ring : Ring) (nd : MmapNode) (b n f : Nat) (w : World)
    (k : Kernel) : Prop :=
  ∃ res, fgdsRead head k ring ⟨fd, nd.gpuAddr, b, n, f, owner⟩ = some res ∧
    res.ret = (min n ((w.files fd).size - f) : Nat) ∧
    (∀ j < min n ((w.files fd).size - f),
      (w.applyAll res.log).mem (nd.hostAddr (b + j)) = (w.files fd).byte (f + j)) ∧
    (∀ x, (∀ j < min n ((w.files fd).size - f), x ≠ nd.hostAddr (b + j)) →
      (w.applyAll res.log).mem x = w.mem x) ∧
    (w.applyAll res.log).files = w.files

/-- A read that carries out the pieces of its window does what is expected. -/
theorem readsWindow_of_pieces (hnd : nd ∈ dev.head) (hin : b + n ≤ nd.length) {w : World}
    {k : Kernel} {ring : Ring} {res : IoResult} {cs : List Cqe}
    (hres : fgdsRead dev.head k ring ⟨fd, nd.gpuAddr, b, n, f, owner⟩ = some res)
    (hret : res.ret = (min n ((w.files fd).size - f) : Nat)) (hperm : cs.Perm res.log)
    (ht : Tiles (fun c => c.sqe.len) (ReadAt nd fd b f (w.files fd).size) b (b + n) cs) :
    ReadsWindow fd owner dev.head ring nd b n f w k := by
  obtain ⟨hfiles, hin', hout⟩ := reads_effect (dev.registered nd hnd) hin hperm ht w
  exact ⟨res, hres, hret, hin', hout, hfiles⟩

/-- With an idle ring, or below the threshold. -/
theorem readsWindow_of (hnd : nd ∈ dev.head) (hn : 1 ≤ n) (hin : b + n ≤ nd.length)
    (hf : f < 2 ^ 63) {w : World} {k : Kernel} (hk : FullReads k (w.files fd).size) {ring : Ring}
    (h : Ring.Idle ring ∨ n < fgdsUringReadThresh) :
    ReadsWindow fd owner dev.head ring nd b n f w k := by
  rcases h with hidle | hsmall
  · obtain ⟨res, cs, hres, _, hret, hperm, ht⟩ :=
      fgdsRead_window (baseWindow dev fd owner f hnd hin) rfl hf hn hk hidle
    exact readsWindow_of_pieces dev fd owner hnd hin hres hret hperm ht
  · obtain ⟨_, hret, ht⟩ := fgdsReadDirect_window
      (baseWindow dev fd owner f hnd hin) rfl hf ring hn hk.direct
    exact readsWindow_of_pieces dev fd owner hnd hin (if_pos (by simp only; omega)) hret
      (List.Perm.refl _) ht

/-- `fgds_write` of a window of `src` returns its length; `fgds_read` of the same bytes of the
file into a window of `dst` then returns it as well, and has copied the window; no other byte of
`src`, `dst` or the file changed. -/
def RoundTrips (owner' : Nat) (head : List MmapNode) (ring : Ring) (src dst : MmapNode)
    (so d n f : Nat) (w : World) (k : Kernel) : Prop :=
  ∃ res, fgdsWrite head k ring ⟨fd, src.gpuAddr, so, n, f, owner⟩ = some res ∧ res.ret = n ∧
    ∀ k', FullReads k' ((w.applyAll res.log).files fd).size →
      ∃ res', fgdsRead head k' res.ring ⟨fd, dst.gpuAddr, d, n, f, owner'⟩ = some res' ∧
        res'.ret = n ∧
        (∀ j < n, ((w.applyAll res.log).applyAll res'.log).mem (dst.hostAddr (d + j)) =
          w.mem (src.hostAddr (so + j))) ∧
        (∀ o < dst.length, o < d ∨ d + n ≤ o →
          ((w.applyAll res.log).applyAll res'.log).mem (dst.hostAddr o) =
            w.mem (dst.hostAddr o)) ∧
        (∀ o < src.length, ((w.applyAll res.log).applyAll res'.log).mem (src.hostAddr o) =
          w.mem (src.hostAddr o)) ∧
        (∀ y, y < f ∨ f + n ≤ y →
          (((w.applyAll res.log).applyAll res'.log).files fd).byte y = (w.files fd).byte y)

/-- A write that carries out the pieces of its window, and a read that does what is expected of
it on the ring that the write leaves. -/
theorem roundTrips_of_pieces {src dst : MmapNode} (hsrc : src ∈ dev.head) (hdst : dst ∈ dev.head)
    (hne : src ≠ dst) (owner' : Nat) {so d : Nat} (hn : 1 ≤ n) (hd : d + n ≤ dst.length)
    {w : World} {k : Kernel} {ring : Ring} {res : IoResult}
    {cs : List Cqe} (hres : fgdsWrite dev.head k ring ⟨fd, src.gpuAddr, so, n, f, owner⟩ = some res)
    (hret : res.ret = n) (hperm : cs.Perm res.log)
    (ht : Tiles (fun c => c.sqe.len) (WriteAt src fd so f) so (so + n) cs)
    (hread : ∀ w' k', FullReads k' (w'.files fd).size →
      ReadsWindow fd owner' dev.head res.ring dst d n f w' k') :
    RoundTrips fd owner owner' dev.head ring src dst so d n f w k := by
  have hrs := dev.registered src hsrc
  have hrd := dev.registered dst hdst
  have hhost : HostDisjoint src dst := dev.hostDisjoint.forall hsrc hdst hne
  obtain ⟨hmem, _, hsize, hbyte, hkeep⟩ := writes_effect hn hperm ht w
  refine ⟨res, hres, hret, fun k' hk' => ?_⟩
  obtain ⟨res', hres', hret', hin, hout, hfiles⟩ := hread (w.applyAll res.log) k' hk'
  have hall : min n (((w.applyAll res.log).files fd).size - f) = n := by
    rw [hsize]
    omega
  rw [hall] at hin hout hret'
  refine ⟨res', hres', hret', fun j hj => ?_, fun o ho hod => ?_, fun o ho => ?_, fun y hy => ?_⟩
  · rw [hin j hj, hbyte j hj]
  · rw [hout, hmem]
    intro j hj he
    have := hrd.hostAddr_inj ho (by omega) he
    omega
  · rw [hout, hmem]
    exact fun j hj => hostAddr_ne hrs hrd hhost ho (by omega)
  · rw [hfiles, hkeep y fun j hj => by omega]

/-- With an idle ring, or below both thresholds. -/
theorem roundTrips_of {src dst : MmapNode} (hsrc : src ∈ dev.head) (hdst : dst ∈ dev.head)
    (hne : src ≠ dst) (owner' : Nat) {so d : Nat} (hn : 1 ≤ n) (hso : so + n ≤ src.length)
    (hd : d + n ≤ dst.length) (hf : f < 2 ^ 63) {w : World} {k : Kernel} (hk : FullWrites k)
    {ring : Ring} (h : Ring.Idle ring ∨ n < fgdsUringReadThresh) :
    RoundTrips fd owner owner' dev.head ring src dst so d n f w k := by
  rcases h with hidle | hsmall
  · obtain ⟨res, cs, hres, hidle', hret, hperm, ht⟩ :=
      fgdsWrite_window (baseWindow dev fd owner f hsrc hso) rfl hf hn hk hidle
    exact roundTrips_of_pieces dev fd owner hsrc hdst hne owner' hn hd hres hret hperm ht
      fun w' k' hk' => readsWindow_of dev fd owner' hdst hn hd hf hk' (.inl hidle')
  · have hdirect : n < fgdsUringWriteThresh := Nat.lt_trans hsmall (by decide)
    obtain ⟨_, hret, ht⟩ := fgdsWriteDirect_window
      (baseWindow dev fd owner f hsrc hso) rfl hf ring hn hk.direct
    exact roundTrips_of_pieces dev fd owner hsrc hdst hne owner' hn hd
      (if_pos (by simp only; omega)) hret (List.Perm.refl _) ht
      fun w' k' hk' => readsWindow_of dev fd owner' hdst hn hd hf hk' (.inr hsmall)

end Device

/-! ## A device with two regions -/

theorem fourMb_registered : (oneSegment 1 4294967296 1048576 4194304).Registered :=
  oneSegment_registered _ _ _ _ (by decide) (by decide) (by decide) (by decide)

/-- 4MB at 1MB and 4MB at 16MB, mapped at 4GB and at 8GB. -/
def twoRegions : ReadyDevice where
  head := [oneSegment 1 4294967296 1048576 4194304, oneSegment 2 8589934592 16777216 4194304]
  registered := by
    simp only [List.mem_cons, List.not_mem_nil, or_false, forall_eq_or_imp, forall_eq]
    exact ⟨fourMb_registered,
      oneSegment_registered _ _ _ _ (by decide) (by decide) (by decide) (by decide)⟩
  gpuEnd := by decide
  gpuDisjoint := List.pairwise_pair.mpr (Or.inl (by decide))
  hostDisjoint := List.pairwise_pair.mpr fun i hi j hj => by
    obtain rfl : i = 0 := by simpa [oneSegment] using hi
    obtain rfl : j = 0 := by simpa [oneSegment] using hj
    exact Or.inl (by decide)
  ring := ⟨false, [], []⟩
  idle := ⟨rfl, rfl⟩

theorem plainKernel_fair (S i : Nat) : Fair ((plainKernel S).batch i) :=
  ⟨fun _ => rfl, plainKernel_complete S i, fun _ _ => List.Perm.refl _, fun _ => rfl⟩

theorem plainKernel_reads (S : Nat) : FullReads (plainKernel S) S := by
  refine ⟨Int.le_refl _, fun i q hq => if_pos hq, plainKernel_fair S, fun i qs c hc hq => ?_⟩
  obtain ⟨q, _, rfl⟩ := List.mem_map.mp hc
  exact if_pos hq

theorem plainKernel_writes (S : Nat) : FullWrites (plainKernel S) := by
  refine ⟨Int.le_refl _, fun i q hq => ?_, plainKernel_fair S, fun i qs c hc hq => ?_⟩
  · simp [plainKernel, hq]
  · obtain ⟨q, _, rfl⟩ := List.mem_map.mp hc
    simp only at hq
    simp [hq]

/-- A world whose files hold `S` ones. -/
def plainWorld (S : Nat) : World where
  mem _ := 0
  files _ := ⟨S, fun y => if y < S then 1 else 0, fun y hy => if_neg (by omega)⟩

end Fgds.Transfer
