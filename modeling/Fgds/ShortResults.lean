import Fgds.Async
import Fgds.Transfer
import Fgds.XferSafety

/-!
# Short results

`pread` and `pwrite` may transfer fewer bytes than they are asked for. Four loops go over the
pieces of a window, and each treats such a result in its own way: `fgds_read_direct` adds it up
and reads the next segment from there on in the file; `fgds_write_direct` gives up;
`fgds_callback` adds it up, failures included, and goes on in the file by the length asked for;
the pipeline adds it up, and gives up at a failure.

* `short_reads_in_place_iff`: the bytes of a direct read are in place if and only if nothing is
  read after a short segment;
* `short_read_shifted`: a window over a segment border where something is;
* `write_all_or_error_iff`: a write returns everything or -1 if and only if it is a direct one,
  or one of its pieces failed, or none was short;
* `short_write_accepted`: a pipelined write that returns fewer bytes;
* `async_agrees_iff`: when the stream operations report what the direct calls return;
* `async_hides_failure`: a failed segment reported as bytes.
-/

namespace Fgds.ShortResults

open Fgds.Lib.CInt Fgds.Lib.Tiling Fgds.Device Fgds.Xfer Fgds.Uring Fgds.Pipeline Fgds.ReadWrite
open Fgds.Async Fgds.Transfer Fgds.XferSafety

/-- What `pread` and `pwrite` may return: -1, or up to the length asked for. -/
def MayBeShort (rw : Nat → Sqe → Int) : Prop := ∀ i q, -1 ≤ rw i q ∧ rw i q ≤ q.len

/-! ## Direct reads -/

section Reads

variable {head : List MmapNode} {r : Req} (w : Window head r)

/-- What the read has stored at offset `k` of the window comes from `f_offset + k`. -/
def InPlace (c : Cqe) : Prop :=
  ∀ j < c.res.toNat, ∀ k < w.n, c.sqe.addr + j = w.nd.hostAddr (w.b + k) →
    u64 (c.sqe.off + j) = u64 (r.fOffset + k)

/-- Something was stored at offset `k` of the window. -/
def Stored (log : List Cqe) (k : Nat) : Prop :=
  ∃ c ∈ log, ∃ j < c.res.toNat, c.sqe.addr + j = w.nd.hostAddr (w.b + k)

/-- Nothing is shifted, and as many bytes as are returned have arrived. -/
structure ReadsInPlace (res : IoResult) : Prop where
  inPlace : ∀ c ∈ res.log, InPlace w c
  stored : ∀ k : Nat, k < res.ret → Stored w res.log k

/-- Nothing is read after a short segment. -/
def ShortIsLast (log : List Cqe) : Prop :=
  log.Pairwise fun c d => c.res < c.sqe.len → d.res ≤ 0

/-- The reads of the loop from position `p` of the region on, with `t` bytes read before. -/
def ReadChain : Nat → Nat → List Cqe → Prop
  | p, _, [] => p = w.b + w.n
  | p, t, c :: cs =>
    c.sqe.addr = w.nd.hostAddr p ∧
    (p + c.sqe.len - 1) / fgdsMmapSegmentSize = p / fgdsMmapSegmentSize ∧
    c.sqe.off = u64 (r.fOffset + t) ∧ 0 ≤ c.res ∧ c.res ≤ c.sqe.len ∧
    ReadChain (p + c.sqe.len) (t + c.res.toNat) cs

variable {w}

/-- A loop that does not fail. -/
theorem readLoop_chain {rw : Nat → Sqe → Int} (hrw : MayBeShort rw) {es : List XferAddr} {p : Nat}
    (ht : Tiles XferAddr.nbyte (XferAddr.At w.nd) p (w.b + w.n) es) (i t : Nat)
    (hret : 0 ≤ (readLoop rw r es i t).1) :
    ReadChain w p t (readLoop rw r es i t).2 ∧
      (readLoop rw r es i t).1 = t + sumRes (readLoop rw r es i t).2 := by
  induction es generalizing p i t with
  | nil => exact ⟨ht, by simp [readLoop]⟩
  | cons e es ih =>
    obtain ⟨_, hat, hrest⟩ := ht
    obtain ⟨x, hx⟩ : ∃ x, rw i (segmentSqe .read r e t) = x := ⟨_, rfl⟩
    by_cases hneg : x < 0
    · rw [readLoop_stop es hx hat.nbyte_le hneg] at hret
      cases hret
    · rw [readLoop_next es hx (by omega)] at hret ⊢
      have hle := (hrw i (segmentSqe .read r e t)).2
      rw [hx] at hle
      have htotal : (t : Int) + x = (t + x.toNat : Nat) := by omega
      rw [htotal] at hret ⊢
      obtain ⟨hchain, hsum⟩ := ih hrest (i + 1) (t + x.toNat) hret
      refine ⟨⟨hat.1, hat.2, u64_s64 _, by dsimp only; omega, hle, hchain⟩, ?_⟩
      rw [hsum, sumRes_cons]
      dsimp only
      omega

theorem ReadChain.result {p t : Nat} {c : Cqe} {cs : List Cqe} (h : ReadChain w p t (c :: cs)) :
    0 ≤ c.res ∧ c.res ≤ c.sqe.len :=
  ⟨h.2.2.2.1, h.2.2.2.2.1⟩

theorem ReadChain.next {p t : Nat} {c : Cqe} {cs : List Cqe} (h : ReadChain w p t (c :: cs)) :
    ReadChain w (p + c.sqe.len) (t + c.res.toNat) cs :=
  h.2.2.2.2.2

theorem ReadChain.le {p t : Nat} {cs : List Cqe} (h : ReadChain w p t cs) : p ≤ w.b + w.n := by
  induction cs generalizing p t with
  | nil => exact Nat.le_of_eq h
  | cons c cs ih =>
    have hle := ih h.next
    omega

/-- A read is in place if it starts as far in the file as in the window. -/
theorem inPlace_iff {p t : Nat} {c : Cqe} {cs : List Cqe} (h : ReadChain w p t (c :: cs))
    (hp : w.b ≤ p) (ht : t ≤ p - w.b) : InPlace w c ↔ (0 < c.res → t = p - w.b) := by
  obtain ⟨haddr, hseg, hoff, _, hres, hrest⟩ := h
  have hend := hrest.le
  have hlt := w.length_lt
  have hin := w.inside
  unfold InPlace
  rw [haddr, hoff]
  constructor
  · intro hplace hpos
    have hfirst := hplace 0 (by omega) (p - w.b) (by omega) (by
      rw [Nat.add_zero]
      congr 1
      omega)
    unfold u64 at hfirst
    omega
  · intro hstart j hj k hk heq
    rw [w.nd.hostAddr_add (by omega : j < c.sqe.len) hseg] at heq
    have hjk := w.registered.hostAddr_inj (by omega) (by omega) heq
    have hstart := hstart (by omega)
    unfold u64
    omega

/-- Once a read was short, nothing else may be read. -/
theorem ReadChain.behind {p t : Nat} {cs : List Cqe} (h : ReadChain w p t cs) (hp : w.b ≤ p)
    (ht : t < p - w.b) : (∀ c ∈ cs, InPlace w c) ↔ ∀ c ∈ cs, c.res ≤ 0 := by
  induction cs generalizing p t with
  | nil => simp
  | cons c cs ih =>
    have hres := h.result
    rw [List.forall_mem_cons, List.forall_mem_cons, inPlace_iff h hp (by omega),
      ih h.next (by omega) (by omega)]
    exact and_congr_left fun _ => by omega

theorem shortIsLast_of_nothing {cs : List Cqe} (h : ∀ c ∈ cs, c.res ≤ 0) : ShortIsLast cs :=
  List.pairwise_of_forall_mem_list fun _ _ d hd _ => h d hd

/-- As long as no read was short, the next one is in place. -/
theorem ReadChain.level {p t : Nat} {cs : List Cqe} (h : ReadChain w p t cs) (hp : w.b ≤ p)
    (ht : t = p - w.b) : (∀ c ∈ cs, InPlace w c) ↔ ShortIsLast cs := by
  induction cs generalizing p t with
  | nil => simp [ShortIsLast]
  | cons c cs ih =>
    have hres := h.result
    have hfirst : InPlace w c := (inPlace_iff h hp (by omega)).mpr fun _ => ht
    rw [List.forall_mem_cons, ShortIsLast, List.pairwise_cons, and_iff_right hfirst]
    by_cases hshort : c.res < c.sqe.len
    · rw [h.next.behind (by omega) (by omega)]
      constructor
      · intro hnone
        exact ⟨fun d hd _ => hnone d hd, shortIsLast_of_nothing hnone⟩
      · exact fun hlast d hd => hlast.1 d hd hshort
    · rw [ih h.next (by omega) (by omega)]
      exact ⟨fun hlast => ⟨fun _ _ hlt => absurd hlt hshort, hlast⟩, fun hlast => hlast.2⟩

theorem sumRes_nothing {cs : List Cqe} (h : ∀ c ∈ cs, c.res ≤ 0) : sumRes cs ≤ 0 := by
  induction cs with
  | nil => simp
  | cons c cs ih =>
    have hc := h c List.mem_cons_self
    have hcs := ih fun d hd => h d (List.mem_cons_of_mem c hd)
    rw [sumRes_cons]
    omega

/-- The bytes counted are there. -/
theorem ReadChain.stored {p t : Nat} {cs : List Cqe} (h : ReadChain w p t cs) (hp : w.b ≤ p)
    (ht : t = p - w.b) (hlast : ShortIsLast cs) {k : Nat} (hk : t ≤ k)
    (hlt : (k : Int) < t + sumRes cs) : Stored w cs k := by
  induction cs generalizing p t with
  | nil =>
    rw [sumRes_nil] at hlt
    omega
  | cons c cs ih =>
    obtain ⟨haddr, hseg, _, hpos, hres, hrest⟩ := h
    obtain ⟨hnone, hlast⟩ := List.pairwise_cons.mp hlast
    rw [sumRes_cons] at hlt
    by_cases hin : k < t + c.res.toNat
    · refine ⟨c, List.mem_cons_self, k - t, by omega, ?_⟩
      rw [haddr, w.nd.hostAddr_add (by omega : k - t < c.sqe.len) hseg]
      congr 1
      omega
    · by_cases hshort : c.res < c.sqe.len
      · have hsum := sumRes_nothing fun d hd => hnone d hd hshort
        omega
      · obtain ⟨d, hd, hstored⟩ := ih hrest (by omega) (by omega) hlast (by omega) (by omega)
        exact ⟨d, List.mem_cons_of_mem c hd, hstored⟩

/-- A direct read that returns a number of bytes has them in place if and only if nothing was
read after a short segment. -/
theorem short_reads_in_place_iff (w : Window head r) (hn : 0 < w.n) {k : Kernel}
    (hk : MayBeShort k.rw) (ring : Ring) (hret : 0 ≤ (fgdsReadDirect head k ring r).ret) :
    ReadsInPlace w (fgdsReadDirect head k ring r) ↔
      ShortIsLast (fgdsReadDirect head k ring r).log := by
  obtain ⟨es, hes, ht⟩ := window_segments w hn
  simp only [fgdsReadDirect, hes] at hret ⊢
  obtain ⟨hchain, hsum⟩ := readLoop_chain hk ht 0 0 hret
  have hlevel := hchain.level (Nat.le_refl _) (Nat.sub_self _).symm
  constructor
  · intro hplace
    exact hlevel.mp hplace.inPlace
  · intro hlast
    refine ⟨hlevel.mpr hlast, fun k hk => ?_⟩
    exact hchain.stored (Nat.le_refl _) (Nat.sub_self _).symm hlast (Nat.zero_le k) (hsum ▸ hk)

end Reads

/-! ## A region of two segments -/

/-- 1GB and 64KB at 1TB, mapped at 4GB and at 8GB. -/
def twoSegments : MmapNode :=
  ⟨1, [4294967296, 8589934592], 2, 1099511627776, 1073807360, 65536, true⟩

theorem twoSegments_registered : twoSegments.Registered where
  aligned := by decide
  pos := by decide
  count := by decide
  left := by decide
  mapped := rfl
  vaddrs := rfl
  countInt := by decide
  hostEnd := by decide
  hostDisjoint := by
    intro i hi j hj hij
    simp only [twoSegments] at hi hj
    interval_cases i <;> interval_cases j <;> simp_all [SegDisjoint] <;> decide

/-- The 8KB over the border. -/
def overBorder : Window [twoSegments] ⟨3, 1099511627776, 1073737728, 8192, 0, 0⟩ where
  nd := twoSegments
  b := 1073737728
  n := 8192
  bufOffset := rfl
  nbyte := rfl
  registered := twoSegments_registered
  inside := by decide
  selects := selects_newest (by decide) (by decide) (by decide) []

theorem plainKernel_short (S : Nat) : MayBeShort (plainKernel S).rw := by
  intro i q
  simp only [plainKernel, available]
  split
  · omega
  · omega

/-- From a file of 5000 bytes: the second segment is short. -/
theorem short_reads_in_place_end :
    ReadsInPlace overBorder (fgdsReadDirect [twoSegments] (plainKernel 5000) ⟨false, [], []⟩
      ⟨3, 1099511627776, 1073737728, 8192, 0, 0⟩) := by
  refine (short_reads_in_place_iff overBorder (by decide) (plainKernel_short 5000) _
    (by decide +kernel)).mpr ?_
  unfold ShortIsLast
  decide +kernel

/-- A kernel whose first read stops after 100 bytes. -/
def interrupted : Kernel :=
  { plainKernel 8192 with rw := fun i q => if i = 0 then min 100 q.len else q.len }

theorem interrupted_short : MayBeShort interrupted.rw := by
  intro i q
  simp only [interrupted]
  split
  · omega
  · omega

/-- The second segment is read from offset 100 of the file instead of 4096. -/
theorem short_read_shifted :
    MayBeShort interrupted.rw ∧
      (fgdsReadDirect [twoSegments] interrupted ⟨false, [], []⟩
        ⟨3, 1099511627776, 1073737728, 8192, 0, 0⟩).ret = 4196 ∧
      (fgdsReadDirect [twoSegments] interrupted ⟨false, [], []⟩
        ⟨3, 1099511627776, 1073737728, 8192, 0, 0⟩).log =
        [⟨⟨.read, 3, 5368705024, 4096, 0, 0⟩, 100⟩, ⟨⟨.read, 3, 8589934592, 4096, 100, 0⟩, 4096⟩] ∧
      ¬ ReadsInPlace overBorder (fgdsReadDirect [twoSegments] interrupted ⟨false, [], []⟩
        ⟨3, 1099511627776, 1073737728, 8192, 0, 0⟩) := by
  have hlog : (fgdsReadDirect [twoSegments] interrupted ⟨false, [], []⟩
      ⟨3, 1099511627776, 1073737728, 8192, 0, 0⟩).log =
      [⟨⟨.read, 3, 5368705024, 4096, 0, 0⟩, 100⟩,
        ⟨⟨.read, 3, 8589934592, 4096, 100, 0⟩, 4096⟩] := by
    decide +kernel
  refine ⟨interrupted_short, by decide +kernel, hlog, fun h => ?_⟩
  have hplace := h.inPlace ⟨⟨.read, 3, 8589934592, 4096, 100, 0⟩, 4096⟩ (by simp [hlog])
  exact absurd (hplace 0 (by decide) 4096 (by decide) (by decide)) (by decide)

/-! ## Writes on either path -/

/-- Every single write may be short or fail; apart from that the kernel is fair. -/
structure ShortWrites (k : Kernel) : Prop where
  direct : MayBeShort k.rw
  batch : ∀ i, Fair (k.batch i)
  cqe : ∀ i qs, ∀ c ∈ (k.batch i).complete qs, c.res ≤ c.sqe.len

section Writes

variable {head : List MmapNode} {r : Req} (w : Window head r)

/-- The operations are the pieces of the window, and each was written in full. -/
def WrittenInFull (log : List Cqe) : Prop :=
  ∃ cs : List Cqe, cs.Perm log ∧ Tiles (fun c => c.sqe.len)
    (fun p c => SqeAt w .write p c.sqe ∧ c.res = c.sqe.len) w.b (w.b + w.n) cs

/-- A call that returns `nbyte` if every piece was written in full, and -1 otherwise. -/
structure AllOrError (res : IoResult) : Prop where
  all : WrittenInFull w res.log → res.ret = w.n
  error : ¬ WrittenInFull w res.log → res.ret = -1

variable {w}

theorem WrittenInFull.full {log : List Cqe} (h : WrittenInFull w log) :
    ∀ c ∈ log, c.res = c.sqe.len := by
  obtain ⟨cs, hperm, ht⟩ := h
  intro c hc
  obtain ⟨_, _, _, _, hat⟩ := tiles_mem ht (hperm.mem_iff.mpr hc)
  exact hat.2

theorem fgdsWriteDirect_allOrError (hn : 0 < w.n) {k : Kernel} (hk : MayBeShort k.rw)
    (ring : Ring) : AllOrError w (fgdsWriteDirect head k ring r) := by
  obtain ⟨es, hes, ht⟩ := window_segments w hn
  simp only [fgdsWriteDirect, hes]
  have hloop := writeLoop_window w (fun i q _ => hk i q) ht (Nat.le_refl _) 0
  rw [Nat.sub_self] at hloop
  rcases hloop with ⟨hall, htiles⟩ | ⟨herr, j, q, _, hshort, hmem⟩
  · exact ⟨fun _ => hall, fun hnot => absurd ⟨_, List.Perm.refl _, htiles⟩ hnot⟩
  · exact ⟨fun h => absurd (h.full _ hmem) hshort, fun _ => herr⟩

/-- A call of the pipeline that carried out the pieces in some order. -/
theorem callDone_allOrError_iff {batch : Nat → Sched} {ring : Ring} {res : IoResult}
    (h : CallDone w .write batch ring 0 0 res) :
    AllOrError w res ↔
      (∃ c ∈ res.log, c.res < 0) ∨ ∀ c ∈ res.log, c.res = c.sqe.len := by
  by_cases hfail : ∃ c ∈ res.log, c.res < 0
  · refine iff_of_true ⟨fun hfull => ?_, fun _ => h.failed hfail⟩ (.inl hfail)
    obtain ⟨c, hc, hneg⟩ := hfail
    have hlen := hfull.full c hc
    omega
  · have hok : ∀ c ∈ res.log, 0 ≤ c.res := fun c hc => by
      by_contra hneg
      exact hfail ⟨c, hc, by omega⟩
    obtain ⟨cs, hperm, ht⟩ := callDone_pieces w h hok
    have hret := h.total hok
    rw [← sumRes_perm hperm, Int.zero_add] at hret
    rw [or_iff_right hfail]
    constructor
    · intro hall
      by_contra hshort
      have herr := hall.error fun hfull => hshort hfull.full
      have hsum : 0 ≤ sumRes cs := List.sum_nonneg fun x hx => by
        obtain ⟨c, hc, rfl⟩ := List.mem_map.mp hx
        exact hok c (hperm.mem_iff.mp hc)
      omega
    · intro hfull
      have hwritten : WrittenInFull w res.log :=
        ⟨cs, hperm, tiles_imp ht fun p c hc _ _ hat => ⟨hat, hfull c (hperm.mem_iff.mp hc)⟩⟩
      refine ⟨fun _ => ?_, fun hnot => absurd hwritten hnot⟩
      have hsum := sumRes_full ht fun c hc => hfull c (hperm.mem_iff.mp hc)
      push_cast at hsum
      omega

/-- A write returns `nbyte` or -1, as its pieces were written or not, if and only if it takes the
direct path, or one of its pieces failed, or none of them was short. -/
theorem write_all_or_error_iff (w : Window head r) (hn : 0 < w.n) {k : Kernel}
    (hk : ShortWrites k) {ring : Ring} (hidle : Ring.Idle ring) :
    ∃ res, fgdsWrite head k ring r = some res ∧
      (AllOrError w res ↔ w.n < fgdsUringWriteThresh ∨ (∃ c ∈ res.log, c.res < 0) ∨
        ∀ c ∈ res.log, c.res = c.sqe.len) := by
  unfold fgdsWrite
  have hnbyte := w.nbyte
  by_cases hdirect : w.n < fgdsUringWriteThresh
  · rw [if_pos (by omega)]
    exact ⟨_, rfl, iff_of_true (fgdsWriteDirect_allOrError hn hk.direct ring) (.inl hdirect)⟩
  · rw [if_neg (by omega)]
    by_cases hring : ring.uringInit = false ∧ k.queueInit < 0
    · -- the ring cannot be set up: nothing is written, and the call says so
      refine ⟨⟨-1, ring, [], []⟩, ?_, iff_of_true ⟨?_, fun _ => rfl⟩ (.inr (.inr (by simp)))⟩
      · rw [fgdsPipeline, if_neg (by simp [hring.1]), if_pos hring.2]
      · rintro ⟨cs, hperm, ht⟩
        rw [List.perm_nil] at hperm
        rw [hperm, tiles_nil] at ht
        omega
    · have hinit : ring.uringInit = true ∨ 0 ≤ k.queueInit := by
        cases hset : ring.uringInit with
        | true => exact .inl rfl
        | false =>
          right
          by_contra hneg
          exact hring ⟨hset, by omega⟩
      obtain ⟨res, ring', hres, _, hcall⟩ := fgdsPipeline_window w .write hinit hk.batch hidle
      refine ⟨res, hres, ?_⟩
      rw [callDone_allOrError_iff hcall, or_iff_right hdirect]

end Writes

theorem interrupted_writes : ShortWrites interrupted where
  direct := interrupted_short
  batch i := plainKernel_fair 8192 i
  cqe i qs c hc := by
    obtain ⟨q, _, rfl⟩ := List.mem_map.mp hc
    dsimp only [available]
    split
    · omega
    · omega

/-- The 8KB over the border, on the direct path. -/
theorem write_all_or_error_direct :
    ∃ res, fgdsWrite [twoSegments] interrupted ⟨false, [], []⟩
        ⟨3, 1099511627776, 1073737728, 8192, 0, 0⟩ = some res ∧ AllOrError overBorder res := by
  obtain ⟨res, hres, hiff⟩ := write_all_or_error_iff overBorder (by decide) interrupted_writes
    (⟨rfl, rfl⟩ : Ring.Idle ⟨false, [], []⟩)
  exact ⟨res, hres, hiff.mpr (.inl (by decide))⟩

/-- The first 2MB of a region of 4MB. -/
def firstTwoMb : Window [oneSegment 1 4294967296 1048576 4194304]
    ⟨3, 1048576, 0, 2097152, 0, 0⟩ where
  nd := oneSegment 1 4294967296 1048576 4194304
  b := 0
  n := 2097152
  bufOffset := rfl
  nbyte := rfl
  registered := fourMb_registered
  inside := by decide
  selects := selects_newest (by decide) (by decide) (by decide) []

/-- A kernel that writes 4KB of the piece at the start of the file, and the others in full. -/
def diskFull : Kernel :=
  { plainKernel 0 with
    batch := fun _ =>
      { submit := fun n => n
        complete := fun qs => qs.map fun q => ⟨q, if q.off = 0 then min 4096 q.len else q.len⟩
        merge := fun a b => a ++ b
        waitFails := fun _ => false
        peeked := 0 } }

theorem diskFull_writes : ShortWrites diskFull where
  direct := plainKernel_short 0
  batch _ := by
    refine ⟨fun _ => rfl, fun qs => ?_, fun _ _ => List.Perm.refl _, fun _ => rfl⟩
    simp [diskFull, Function.comp_def]
  cqe i qs c hc := by
    obtain ⟨q, _, rfl⟩ := List.mem_map.mp hc
    dsimp only
    split
    · omega
    · omega

/-- 252KB are missing, and the call returns the rest. -/
theorem short_write_accepted :
    ShortWrites diskFull ∧ ∃ res, fgdsWrite [oneSegment 1 4294967296 1048576 4194304] diskFull
        ⟨false, [], []⟩ ⟨3, 1048576, 0, 2097152, 0, 0⟩ = some res ∧ res.ret = 1839104 ∧
      ¬ AllOrError firstTwoMb res := by
  have hret : (fgdsWrite [oneSegment 1 4294967296 1048576 4194304] diskFull ⟨false, [], []⟩
      ⟨3, 1048576, 0, 2097152, 0, 0⟩).map IoResult.ret = some 1839104 := by decide +kernel
  obtain ⟨res, hres, hret⟩ := Option.map_eq_some_iff.mp hret
  refine ⟨diskFull_writes, res, hres, hret, fun hall => ?_⟩
  by_cases hfull : WrittenInFull firstTwoMb res.log
  · have hn := hall.all hfull
    rw [hret] at hn
    exact absurd hn (by decide)
  · have herr := hall.error hfull
    rw [hret] at herr
    cases herr

/-! ## Stream operations -/

/-- The result of every segment satisfies `P`; `res i` is that of the first. -/
def ForSegments (P : Int → XferAddr → Prop) (res : Nat → Int) : Nat → List XferAddr → Prop
  | _, [] => True
  | i, e :: es => P (res i) e ∧ ForSegments P res (i + 1) es

def resultSum (res : Nat → Int) : Nat → List XferAddr → Int
  | _, [] => 0
  | i, _ :: es => res i + resultSum res (i + 1) es

/-- A kernel that answers the n-th call with `res n`. -/
def resultKernel (res : Nat → Int) : Kernel := { plainKernel 0 with rw := fun i _ => res i }

/-- `fgds_read_direct` or `fgds_write_direct`. -/
def directCall (op : Opcode) (head : List MmapNode) (k : Kernel) (ring : Ring) (r : Req) :
    IoResult :=
  match op with
  | .read => fgdsReadDirect head k ring r
  | .write => fgdsWriteDirect head k ring r

/-- The callback stores in `bytes_done` what the direct call returns for the same results, and a
negative number if a segment failed. -/
structure Agrees (op : Opcode) (head : List MmapNode) (r : Req) (res : Nat → Int)
    (data : FgdsData) : Prop where
  same : ∀ ring, (fgdsCallback (fun i _ => res i) data r.owner).1 =
    (directCall op head (resultKernel res) ring r).ret
  failed : ¬ ForSegments (fun x _ => 0 ≤ x) res 0 data.xferAddr →
    (fgdsCallback (fun i _ => res i) data r.owner).1 < 0

/-- What the direct call takes as the result of a segment without giving up. -/
def Accepts (op : Opcode) (x : Int) (e : XferAddr) : Prop :=
  match op with
  | .read => 0 ≤ x
  | .write => x = e.nbyte

section Stream

variable {res : Nat → Int} {nd : MmapNode}

/-- The results a segment can have. -/
def InRange (x : Int) (e : XferAddr) : Prop := -1 ≤ x ∧ x ≤ e.nbyte

theorem readLoop_accepted (r : Req) {es : List XferAddr} {i : Nat}
    (h : ForSegments (Accepts .read) res i es) (t : Int) :
    (readLoop (fun i _ => res i) r es i t).1 = t + resultSum res i es := by
  induction es generalizing i t with
  | nil => simp [readLoop, resultSum]
  | cons e es ih =>
    rw [readLoop_next es rfl h.1, resultSum, ih h.2]
    omega

theorem readLoop_failed (r : Req) {es : List XferAddr} {p q : Nat}
    (ht : Tiles XferAddr.nbyte (XferAddr.At nd) p q es) {i : Nat}
    (h : ¬ ForSegments (Accepts .read) res i es) (t : Int) :
    (readLoop (fun i _ => res i) r es i t).1 = -1 := by
  induction es generalizing i t p with
  | nil => exact absurd trivial h
  | cons e es ih =>
    obtain ⟨_, hat, hrest⟩ := ht
    by_cases hneg : res i < 0
    · rw [readLoop_stop es rfl hat.nbyte_le hneg]
    · rw [readLoop_next es rfl (Int.not_lt.mp hneg)]
      exact ih hrest (fun hes => h ⟨Int.not_lt.mp hneg, hes⟩) _

theorem writeLoop_accepted (r : Req) {es : List XferAddr} {p q : Nat}
    (ht : Tiles XferAddr.nbyte (XferAddr.At nd) p q es) (hq : q < 2 ^ 61) {i : Nat}
    (h : ForSegments (Accepts .write) res i es) :
    (writeLoop (fun i _ => res i) r es i p).1 = q ∧ p + resultSum res i es = q := by
  induction es generalizing i p with
  | nil =>
    rw [tiles_nil] at ht
    rw [writeLoop, resultSum, ht]
    exact ⟨s64_eq (by omega) (by omega), by omega⟩
  | cons e es ih =>
    obtain ⟨_, hat, hrest⟩ := ht
    have hle := tiles_le hrest
    have hres : res i = e.nbyte := h.1
    obtain ⟨hloop, hsum⟩ := ih hrest h.2
    rw [writeLoop_next es hres hat.nbyte_le (by omega), resultSum]
    exact ⟨hloop, by omega⟩

theorem writeLoop_not_accepted (r : Req) {es : List XferAddr} {p q : Nat}
    (ht : Tiles XferAddr.nbyte (XferAddr.At nd) p q es) (hq : q < 2 ^ 61) {i : Nat}
    (hres : ForSegments InRange res i es) (h : ¬ ForSegments (Accepts .write) res i es) :
    (writeLoop (fun i _ => res i) r es i p).1 = -1 := by
  induction es generalizing i p with
  | nil => exact absurd trivial h
  | cons e es ih =>
    obtain ⟨_, hat, hrest⟩ := ht
    obtain ⟨⟨hlo, hhi⟩, hres⟩ := hres
    have hle := tiles_le hrest
    by_cases hfull : res i = e.nbyte
    · rw [writeLoop_next es hfull hat.nbyte_le (by omega)]
      exact ih hrest hres fun hes => h ⟨hfull, hes⟩
    · rw [writeLoop_stop es rfl hat.nbyte_le hlo hhi hfull]

/-- The callback adds up all results. -/
theorem callbackLoop_sum (data : FgdsData) (owner : Nat) {es : List XferAddr} {p q : Nat}
    (ht : Tiles XferAddr.nbyte (XferAddr.At nd) p q es) (hq : q < 2 ^ 61) {i : Nat}
    (hres : ForSegments InRange res i es) (fileOffset : Int) {bytesDone : Int}
    (hlo : -p ≤ bytesDone) (hhi : bytesDone ≤ p) :
    (callbackLoop (fun i _ => res i) data owner es i fileOffset bytesDone).1 =
      bytesDone + resultSum res i es := by
  induction es generalizing i p fileOffset bytesDone with
  | nil => simp [callbackLoop, resultSum]
  | cons e es ih =>
    obtain ⟨hpos, _, hrest⟩ := ht
    obtain ⟨⟨hlo', hhi'⟩, hres⟩ := hres
    have hle := tiles_le hrest
    have hsum : s64 (bytesDone + res i) = bytesDone + res i := s64_eq (by omega) (by omega)
    rw [callbackLoop]
    dsimp only
    rw [hsum, ih hrest hres _ (by push_cast; omega) (by push_cast; omega), resultSum]
    omega

theorem fgdsCallback_sum {d : FgdsData} {n : Nat}
    (ht : Tiles XferAddr.nbyte (XferAddr.At nd) 0 n d.xferAddr) (hn : n < 2 ^ 61)
    (hres : ForSegments InRange res 0 d.xferAddr) (owner : Nat) :
    (fgdsCallback (fun i _ => res i) d owner).1 = resultSum res 0 d.xferAddr := by
  have hloop := callbackLoop_sum d owner ht hn hres d.fileOffset
    (by simp : -((0 : Nat) : Int) ≤ 0) (Int.le_refl 0)
  rw [Int.zero_add] at hloop
  exact hloop

section Direct

variable {op : Opcode} {head : List MmapNode} {r : Req} (hoff : r.bufOffset = 0)
  {es : List XferAddr} (hes : fgdsDoXferAddr head r.gpuBuf 0 r.size = some es) {n : Nat}
  (ht : Tiles XferAddr.nbyte (XferAddr.At nd) 0 n es) (hn : n < 2 ^ 61)
include hoff hes ht hn

/-- The direct call adds up the results if it takes all of them. -/
theorem directCall_accepted (hok : ForSegments (Accepts op) res 0 es) (ring : Ring) :
    (directCall op head (resultKernel res) ring r).ret = resultSum res 0 es := by
  cases op with
  | read =>
    simp only [directCall, fgdsReadDirect, hoff, hes]
    exact (readLoop_accepted r hok 0).trans (Int.zero_add _)
  | write =>
    obtain ⟨hloop, hall⟩ := writeLoop_accepted r ht hn hok
    simp only [directCall, fgdsWriteDirect, hoff, hes]
    exact hloop.trans (by omega)

theorem directCall_not_accepted (hres : ForSegments InRange res 0 es)
    (hok : ¬ ForSegments (Accepts op) res 0 es) (ring : Ring) :
    (directCall op head (resultKernel res) ring r).ret = -1 := by
  cases op with
  | read =>
    simp only [directCall, fgdsReadDirect, hoff, hes]
    exact readLoop_failed r ht hok 0
  | write =>
    simp only [directCall, fgdsWriteDirect, hoff, hes]
    exact writeLoop_not_accepted r ht hn hres hok

end Direct

end Stream

theorem fgdsAsync_accepted {head : List MmapNode} {launch : CudaError} {fd : Int} {op : Opcode}
    {buf n : Nat} {offset : Int} {data : FgdsData}
    (h : fgdsAsync head launch fd op buf n offset = (launch, some data)) :
    ∃ es, fgdsDoXferAddr head buf 0 n = some es ∧ data = ⟨fd, op, es, offset⟩ := by
  unfold fgdsAsync at h
  split at h
  · cases h
  · rename_i es hes
    exact ⟨es, hes, by simpa using h.symm⟩

/-- The segments of an accepted request without a buffer offset. -/
theorem accepted_segments {head : List MmapNode} (hreg : ∀ nd ∈ head, nd.Registered)
    {gpuBuf n : Nat} (hn : n < 2 ^ 64) {es : List XferAddr}
    (hes : fgdsDoXferAddr head gpuBuf 0 n = some es) :
    ∃ nd, Tiles XferAddr.nbyte (XferAddr.At nd) 0 n es ∧ n < 2 ^ 61 := by
  rcases Nat.eq_zero_or_pos n with rfl | hpos
  · -- a request for no byte is refused
    cases hf : findFgdsMmapNode head gpuBuf 0 with
    | none =>
      rw [fgdsDoXferAddr_none hf] at hes
      cases hes
    | some nd =>
      rw [fgdsDoXferAddr_some hf,
        xferWindow_zero (hreg nd (List.mem_of_find?_eq_some hf)) (by decide)] at hes
      cases hes
  · obtain ⟨nd, hnd, _, hin, ht⟩ := xfer_found (b := 0) hreg hpos (by omega) hes
    have hlen := (hreg nd hnd).length_lt
    rw [Nat.zero_add] at hin ht
    exact ⟨nd, ht, by omega⟩

theorem ForSegments.imp {P Q : Int → XferAddr → Prop} (himp : ∀ x e, P x e → Q x e)
    {res : Nat → Int} {i : Nat} {es : List XferAddr} (h : ForSegments P res i es) :
    ForSegments Q res i es := by
  induction es generalizing i with
  | nil => trivial
  | cons e es ih => exact ⟨himp _ _ h.1, ih h.2⟩

/-- A result that the direct call takes is not negative. -/
theorem ForSegments.nonneg {op : Opcode} {res : Nat → Int} {i : Nat} {es : List XferAddr}
    (h : ForSegments (Accepts op) res i es) : ForSegments (fun x _ => 0 ≤ x) res i es := by
  cases op with
  | read => exact h
  | write =>
    refine h.imp fun x e hx => ?_
    rw [Accepts] at hx
    omega

/-- For every request without a buffer offset that is accepted: the stream operation reports what
the direct call returns if and only if the direct call takes the results of all segments, or the
results happen to add up to -1. -/
theorem async_agrees_iff {head : List MmapNode} (hreg : ∀ nd ∈ head, nd.Registered) {r : Req}
    (hoff : r.bufOffset = 0) {op : Opcode} {launch : CudaError} {data : FgdsData}
    (hdata : fgdsAsync head launch r.fd op r.gpuBuf r.size r.fOffset = (launch, some data))
    {res : Nat → Int} (hres : ForSegments InRange res 0 data.xferAddr) :
    Agrees op head r res data ↔
      ForSegments (Accepts op) res 0 data.xferAddr ∨ resultSum res 0 data.xferAddr = -1 := by
  obtain ⟨es, hes, rfl⟩ := fgdsAsync_accepted hdata
  have hsize : r.size < 2 ^ 64 := by
    unfold Req.size u64
    omega
  obtain ⟨nd, ht, hlt⟩ := accepted_segments hreg hsize hes
  dsimp only at hres ⊢
  have hsum := fgdsCallback_sum (d := ⟨r.fd, op, es, r.fOffset⟩) ht hlt hres r.owner
  by_cases hok : ForSegments (Accepts op) res 0 es
  · have hret := directCall_accepted hoff hes ht hlt hok
    refine iff_of_true ⟨fun ring => ?_, fun hfail => absurd hok.nonneg hfail⟩ (.inl hok)
    rw [hsum, hret]
  · have hret := directCall_not_accepted hoff hes ht hlt hres hok
    rw [or_iff_right hok]
    constructor
    · intro hagree
      have hsame := hagree.same ⟨false, [], []⟩
      rwa [hsum, hret] at hsame
    · intro hminus
      refine ⟨fun ring => ?_, fun _ => ?_⟩
      · rw [hsum, hret, hminus]
      · rw [hsum, hminus]
        decide

/-- 1GB and 4KB of the region of two segments. -/
def overOneGb : Req := ⟨3, 1099511627776, 0, 1073745920, 0, 0⟩

def overOneGbData (op : Opcode) : FgdsData :=
  ⟨3, op, [⟨4294967296, 1073741824⟩, ⟨8589934592, 4096⟩], 0⟩

theorem fgdsAsync_overOneGb (op : Opcode) :
    fgdsAsync [twoSegments] .success 3 op overOneGb.gpuBuf overOneGb.size overOneGb.fOffset =
      (.success, some (overOneGbData op)) := by
  have hes : fgdsDoXferAddr [twoSegments] overOneGb.gpuBuf 0 overOneGb.size =
      some [⟨4294967296, 1073741824⟩, ⟨8589934592, 4096⟩] := by decide +kernel
  simp only [fgdsAsync, hes]
  rfl

theorem twoSegments_head : ∀ nd ∈ [twoSegments], nd.Registered := by
  intro nd hnd
  rw [List.mem_singleton.mp hnd]
  exact twoSegments_registered

/-- A read at the end of the file: both report the bytes before it. -/
theorem async_agrees_endOfFile :
    Agrees .read [twoSegments] overOneGb (fun i => if i = 0 then 1000 else 0)
      (overOneGbData .read) := by
  refine (async_agrees_iff twoSegments_head rfl (fgdsAsync_overOneGb .read) ?_).mpr (.inl ?_)
  · exact ⟨⟨by decide, by decide⟩, ⟨by decide, by decide⟩, trivial⟩
  · exact ⟨by simp [Accepts], by simp [Accepts], trivial⟩

/-- The second segment fails. -/
def secondFails (i : Nat) : Int := if i = 0 then 1073741824 else -1

theorem secondFails_reported (op : Opcode) :
    (fgdsCallback (fun i _ => secondFails i) (overOneGbData op) 0).1 = 1073741823 := by
  cases op <;> decide +kernel

theorem secondFails_returned (op : Opcode) :
    (directCall op [twoSegments] (resultKernel secondFails) ⟨false, [], []⟩ overOneGb).ret =
      -1 := by
  cases op <;> decide +kernel

theorem secondFails_disagrees (op : Opcode) :
    ¬ Agrees op [twoSegments] overOneGb secondFails (overOneGbData op) := by
  intro h
  have hsame := h.same ⟨false, [], []⟩
  rw [secondFails_returned] at hsame
  exact absurd ((secondFails_reported op).symm.trans hsame) (by decide)

/-- The direct calls return -1, the stream operations report the first segment without its last
byte. -/
theorem async_hides_failure :
    (fgdsCallback (fun i _ => secondFails i) (overOneGbData .read) 0).1 = 1073741823 ∧
      (directCall .read [twoSegments] (resultKernel secondFails) ⟨false, [], []⟩ overOneGb).ret =
        -1 ∧
      ¬ Agrees .read [twoSegments] overOneGb secondFails (overOneGbData .read) ∧
      ¬ Agrees .write [twoSegments] overOneGb secondFails (overOneGbData .write) :=
  ⟨secondFails_reported .read, secondFails_returned .read, secondFails_disagrees .read,
    secondFails_disagrees .write⟩

end Fgds.ShortResults
