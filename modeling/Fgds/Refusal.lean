import Fgds.ReadWrite
import Fgds.XferSafety

/-!
# What a refused request leaves behind

The direct path checks the whole window before it does anything. The pipeline checks
256KB at a time, after it has queued the SQEs of the sub-I/Os before, and submits a
batch before it looks at the next: a window that starts inside a region and ends
outside it is refused half way.

* `pipeline_first_refused`: if the first sub-I/O is refused, nothing happened;
* `pipeline_trace`: if it is accepted, SQEs stay in the queue or were carried out,
  whatever the kernel does;
* `refused_no_trace_iff`: so a refused request leaves no trace exactly on the direct
  path and when already the first 256KB are refused;
* `refused_then_counted`: a request refused half way, and a later read that returns
  more bytes than it asked for.
-/

namespace Fgds.Refusal

open Fgds.Lib.CInt Fgds.Device Fgds.Xfer Fgds.XferSafety Fgds.Uring Fgds.ReadWrite

/-! ## Calls and what follows them -/

structure Call where
  op : Opcode
  head : List MmapNode
  kernel : Kernel
  req : Req

/-- What a sequence of calls returns and has carried out. -/
def laterCalls : List Call → Ring → Option (List (Int × List Cqe))
  | [], _ => some []
  | c :: cs, ring =>
    (fgdsCall c.op c.head c.kernel ring c.req).bind fun res =>
      (laterCalls cs res.ring).map ((res.ret, res.log) :: ·)

/-- The call returns -1, the kernel carried out nothing, the submission queue is empty,
and later calls (for which the ring can be set up) cannot tell. -/
def LeavesNoTrace (op : Opcode) (head : List MmapNode) (k : Kernel) (ring : Ring) (r : Req) :
    Prop :=
  ∃ res, fgdsCall op head k ring r = some res ∧ res.ret = -1 ∧ res.log = [] ∧
    res.ring.sq = [] ∧
    ∀ cs : List Call, (∀ c ∈ cs, 0 ≤ c.kernel.queueInit) →
      laterCalls cs res.ring = laterCalls cs ring

/-- No region is selected for the request, or the window ends beyond the one that is. -/
def OutOfRange (head : List MmapNode) (r : Req) : Prop :=
  ∀ nd, findFgdsMmapNode head r.gpuBuf r.size = some nd → nd.length < r.bufOffset + r.nbyte

/-- The first 256KB of the window end inside the region selected for them. -/
def FirstAccepted (head : List MmapNode) (r : Req) : Prop :=
  ∃ nd, findFgdsMmapNode head r.gpuBuf fgdsSubIoSize = some nd ∧
    0 < r.bufOffset + fgdsSubIoSize ∧ r.bufOffset + fgdsSubIoSize ≤ nd.length

/-! ## The first sub-I/O -/

section First

variable {head : List MmapNode} {r : Req}

theorem firstSubIo_accepted (hreg : ∀ nd ∈ head, nd.Registered) (h : FirstAccepted head r) :
    ∃ es, fgdsDoXferAddr head r.gpuBuf r.bufOffset fgdsSubIoSize = some es ∧ es ≠ [] ∧
      es.length ≤ fgdsUringQd := by
  obtain ⟨nd, hf, hpos, hle⟩ := h
  have hnd := hreg nd (List.mem_of_find?_eq_some hf)
  rw [fgdsDoXferAddr_some hf]
  by_cases hneg : r.bufOffset < 0
  · -- a negative offset that the first check lets through
    have hsub : -(fgdsMmapSegmentSize : Int) < r.bufOffset ∧ r.bufOffset < 0 := by
      simp only [fgdsSubIoSize, fgdsMmapSegmentSize] at *
      omega
    have hw : u64 (fgdsSubIoSize + r.bufOffset) = (r.bufOffset + fgdsSubIoSize).toNat := by
      simp only [fgdsSubIoSize] at *
      exact u64_eq (by omega) (by omega)
    have hlast : ((r.bufOffset + fgdsSubIoSize).toNat - 1) / fgdsMmapSegmentSize = 0 := by
      simp only [fgdsSubIoSize, fgdsMmapSegmentSize] at *
      omega
    refine ⟨_, xferWindow_single hnd hw (by omega) (by omega) ?_, by simp, by simp [fgdsUringQd]⟩
    rw [(below_zero hsub).1, hlast]
    rfl
  · obtain ⟨b, hb⟩ : ∃ b : Nat, r.bufOffset = b := ⟨r.bufOffset.toNat, by omega⟩
    rw [hb] at hle ⊢
    obtain ⟨es, hes, _, hlen⟩ := xferWindow_inside (b := b) hnd
      (by decide : 0 < fgdsSubIoSize) (by omega)
    refine ⟨es, hes, fun h => by simp [h] at hlen, ?_⟩
    simp only [fgdsSubIoSize, fgdsMmapSegmentSize, fgdsUringQd] at *
    omega

theorem firstSubIo_refused (hreg : ∀ nd ∈ head, nd.Registered) (hlo : -2 ^ 63 ≤ r.bufOffset)
    (hhi : r.bufOffset < 2 ^ 63) (h : ¬ FirstAccepted head r) :
    fgdsDoXferAddr head r.gpuBuf r.bufOffset fgdsSubIoSize = none := by
  cases hf : findFgdsMmapNode head r.gpuBuf fgdsSubIoSize with
  | none => exact fgdsDoXferAddr_none hf _
  | some nd =>
    have hnd := hreg nd (List.mem_of_find?_eq_some hf)
    have hlen := hnd.length_lt
    rw [fgdsDoXferAddr_some hf]
    have hnot : ¬ (0 < r.bufOffset + fgdsSubIoSize ∧ r.bufOffset + fgdsSubIoSize ≤ nd.length) :=
      fun hc => h ⟨nd, hf, hc⟩
    by_cases hz : u64 (fgdsSubIoSize + r.bufOffset) = 0
    · exact xferWindow_zero hnd hz
    · apply xferWindow_outside
      simp only [fgdsSubIoSize, u64] at *
      omega

end First

/-! ## The pipeline -/

section Trace

variable {head : List MmapNode} {op : Opcode} {r : Req}

theorem subSize_first (hsize : fgdsSubIoSize ≤ r.size) : subSize r 0 = fgdsSubIoSize := by
  unfold subSize
  split <;> omega

theorem s64_first (hlo : -2 ^ 63 ≤ r.bufOffset) (hhi : r.bufOffset < 2 ^ 63) :
    s64 (r.bufOffset + (0 : Nat) + (0 : Nat)) = r.bufOffset := by
  rw [s64_eq (by omega) (by omega)]
  omega

/-- The first sub-I/O is refused: the call ends before anything is queued. -/
theorem pipeline_first_refused (hlo : -2 ^ 63 ≤ r.bufOffset) (hhi : r.bufOffset < 2 ^ 63)
    (hsize : fgdsSubIoSize ≤ r.size)
    (h : fgdsDoXferAddr head r.gpuBuf r.bufOffset fgdsSubIoSize = none)
    (batch : Nat → Sched) (ring : Ring) :
    uringLoop head op r batch 0 0 0 ring = some ⟨-1, ring, [], []⟩ := by
  have hpos : 0 < r.size := Nat.lt_of_lt_of_le (by decide) hsize
  have hfill : fillBatch head op r 0 0 0 ring.sq = ⟨true, false, 0, 0, ring.sq⟩ := by
    rw [fillBatch, if_pos ⟨by decide, by simpa using hpos⟩]
    simp only [s64_first hlo hhi, Nat.add_zero, subSize_first hsize, h]
  have hbatch : uringBatch head op r (batch 0) 0 0 ring =
      some ⟨true, false, 0, 0, ring, [], []⟩ := by
    simp [uringBatch, hfill, submitPhase]
  rw [uringLoop, if_pos hpos, hbatch]
  rfl

/-- Preparing SQEs never takes any out of the queue. -/
theorem prepSqes_ne_nil {es : List XferAddr} {subFOff : Int} {count : Nat} {sq : List Sqe}
    (h : sq ≠ []) : (prepSqes op r es subFOff count sq).2.2 ≠ [] := by
  induction es generalizing subFOff count sq with
  | nil => exact h
  | cons e es ih =>
    rw [prepSqes]
    split
    · exact h
    · exact ih (by simp)

theorem fillBatch_ne_nil {done count bytes : Nat} {sq : List Sqe} (h : sq ≠ []) :
    (fillBatch head op r done count bytes sq).sq ≠ [] := by
  fun_induction fillBatch head op r done count bytes sq with
  | case1 => exact h
  | case2 => exact h
  | case3 => exact prepSqes_ne_nil h
  | case4 _ _ _ _ _ _ _ _ _ _ _ _ ih => exact ih (prepSqes_ne_nil h)
  | case5 => exact h

/-- What is queued is either still queued after the submission, or was carried out. -/
theorem submitPhase_trace {s : Sched} (hs : ∀ qs, ((s.complete qs).map Cqe.sqe).Perm qs)
    {b : Batch} (hb : b.sq ≠ []) (owed : List Cqe) :
    (submitPhase s b owed).log ≠ [] ∨ (submitPhase s b owed).sq ≠ [] := by
  unfold submitPhase
  split
  · exact Or.inr hb
  · split
    · exact Or.inr hb
    · dsimp only
      split
      · exact Or.inr hb
      · dsimp only
        by_cases htake : b.sq.take (s.submit b.sq.length).toNat = []
        · right
          have happ := List.take_append_drop (s.submit b.sq.length).toNat b.sq
          rw [htake, List.nil_append] at happ
          rw [happ]
          exact hb
        · left
          intro hnil
          have hperm := hs (b.sq.take (s.submit b.sq.length).toNat)
          rw [hnil, List.map_nil] at hperm
          exact htake hperm.nil_eq.symm

theorem uringBatch_trace {s : Sched} (hs : ∀ qs, ((s.complete qs).map Cqe.sqe).Perm qs)
    {done : Nat} {total : Int} {ring : Ring} (hb : (fillBatch head op r done 0 0 ring.sq).sq ≠ [])
    {res : BatchResult} (h : uringBatch head op r s done total ring = some res) :
    res.log ≠ [] ∨ res.ring.sq ≠ [] := by
  simp only [uringBatch, Option.bind_eq_some_iff, Option.map_eq_some_iff] at h
  obtain ⟨_, _, _, _, rfl⟩ := h
  exact submitPhase_trace hs hb ring.owed

/-- SQEs in the queue, found there or put there by the first batch, are never dropped by
the rest of a call. -/
theorem uringLoop_trace {batch : Nat → Sched}
    (hs : ∀ i qs, (((batch i).complete qs).map Cqe.sqe).Perm qs) {i done : Nat} {total : Int}
    {ring : Ring} (hfill : done < r.size → (fillBatch head op r done 0 0 ring.sq).sq ≠ [])
    (hsq : ¬ done < r.size → ring.sq ≠ []) {res : IoResult}
    (h : uringLoop head op r batch i done total ring = some res) :
    res.log ≠ [] ∨ res.ring.sq ≠ [] := by
  replace h := uringLoop_rounds h
  induction h with
  | finish hge => exact .inr (hsq hge)
  | fail hlt hb _ => exact uringBatch_trace (hs _) (hfill hlt) hb
  | more hlt hb _ _ ih =>
    rcases uringBatch_trace (hs _) (hfill hlt) hb with hlog | hq
    · exact .inl (List.append_ne_nil_of_left_ne_nil hlog _)
    · rcases ih (fun _ => fillBatch_ne_nil hq) (fun _ => hq) with hl | hq'
      · exact .inl (List.append_ne_nil_of_right_ne_nil _ hl)
      · exact .inr hq'

/-- The first sub-I/O is accepted: the call, if it returns, has queued or carried out
something. -/
theorem pipeline_trace (hlo : -2 ^ 63 ≤ r.bufOffset) (hhi : r.bufOffset < 2 ^ 63)
    (hsize : fgdsSubIoSize ≤ r.size) {es : List XferAddr}
    (h : fgdsDoXferAddr head r.gpuBuf r.bufOffset fgdsSubIoSize = some es) (hne : es ≠ [])
    (hlen : es.length ≤ fgdsUringQd) {batch : Nat → Sched}
    (hs : ∀ i qs, (((batch i).complete qs).map Cqe.sqe).Perm qs) {ring : Ring}
    (hsq : ring.sq = []) {res : IoResult}
    (hres : uringLoop head op r batch 0 0 0 ring = some res) :
    res.log ≠ [] ∨ res.ring.sq ≠ [] := by
  have hpos : 0 < r.size := Nat.lt_of_lt_of_le (by decide) hsize
  have hprep : ∀ off, (prepSqes op r es off 0 []).2.2 ≠ [] := by
    intro off
    cases es with
    | nil => exact absurd rfl hne
    | cons e es =>
      rw [prepSqes, if_neg (by decide)]
      exact prepSqes_ne_nil (by simp)
  have hfill : (fillBatch head op r 0 0 0 ring.sq).sq ≠ [] := by
    rw [fillBatch, if_pos ⟨by decide, by simpa using hpos⟩]
    simp only [s64_first hlo hhi, Nat.add_zero, subSize_first hsize, h, hsq, Nat.zero_add]
    rw [if_neg (by omega)]
    split
    · exact hprep _
    · exact fillBatch_ne_nil (hprep _)
  exact uringLoop_trace hs (fun _ => hfill) (fun h => absurd hpos h) hres

end Trace

/-! ## Refused requests -/

section Refused

variable {head : List MmapNode} {op : Opcode} {r : Req} {ring : Ring} {k : Kernel}

/-- Later calls cannot tell a ring set up early from one they set up themselves. -/
theorem laterCalls_setup {cs : List Call} (h : ∀ c ∈ cs, 0 ≤ c.kernel.queueInit) :
    laterCalls cs ⟨true, [], []⟩ = laterCalls cs ⟨false, [], []⟩ := by
  induction cs with
  | nil => rfl
  | cons c cs ih =>
    have hc := h c List.mem_cons_self
    have hcs := ih fun c' hc' => h c' (List.mem_cons_of_mem c hc')
    simp only [laterCalls, fgdsCall_eq]
    split
    · cases hop : c.op <;> simp only [fgdsReadDirect, fgdsWriteDirect, Option.bind_some] <;>
        split <;> simp only [hcs]
    · simp only [fgdsPipeline, ↓reduceIte, Bool.false_eq_true]
      rw [if_neg (by omega)]

/-- The direct path checks the whole window first. -/
theorem direct_refused (hlo : -2 ^ 63 ≤ r.bufOffset) (hhi : r.bufOffset < 2 ^ 63)
    (hnlo : -2 ^ 63 ≤ r.nbyte) (hnhi : r.nbyte < 2 ^ 63) (hout : OutOfRange head r) :
    fgdsDoXferAddr head r.gpuBuf r.bufOffset r.size = none := by
  cases hf : findFgdsMmapNode head r.gpuBuf r.size with
  | none => exact fgdsDoXferAddr_none hf _
  | some nd =>
    have hlt := hout nd hf
    rw [fgdsDoXferAddr_some hf]
    apply xferWindow_outside
    simp only [Req.size, u64] at *
    omega

theorem threshold_le (h : ¬ r.nbyte < threshold op) (hnhi : r.nbyte < 2 ^ 63) :
    fgdsSubIoSize ≤ r.size := by
  have hn : fgdsSubIoSize ≤ threshold op := by cases op <;> decide
  simp only [Req.size, u64]
  omega

/-- A request whose window is not inside a region leaves no trace if and only if it is
below the threshold or already its first 256KB are not inside a region. The submission
queue is empty; the kernel may do anything else it can do. -/
theorem refused_no_trace_iff (op : Opcode) {head : List MmapNode}
    (hreg : ∀ nd ∈ head, nd.Registered) {ring : Ring} (hsq : ring.sq = [])
    (hnew : ring.uringInit = false → ring.owed = []) {k : Kernel}
    (hinit : ring.uringInit = false → 0 ≤ k.queueInit)
    (hs : ∀ i qs, (((k.batch i).complete qs).map Cqe.sqe).Perm qs) (r : Req)
    (hlo : -2 ^ 63 ≤ r.bufOffset) (hhi : r.bufOffset < 2 ^ 63) (hnlo : -2 ^ 63 ≤ r.nbyte)
    (hnhi : r.nbyte < 2 ^ 63) (hout : OutOfRange head r) :
    LeavesNoTrace op head k ring r ↔ r.nbyte < threshold op ∨ ¬ FirstAccepted head r := by
  by_cases hdir : r.nbyte < threshold op
  · refine iff_of_true ?_ (Or.inl hdir)
    have hnone := direct_refused hlo hhi hnlo hnhi hout
    refine ⟨⟨-1, ring, [], []⟩, ?_, rfl, rfl, hsq, fun _ _ => rfl⟩
    rw [fgdsCall_eq, if_pos hdir]
    cases op <;> simp only [fgdsReadDirect, fgdsWriteDirect, hnone]
  · have hsize := threshold_le hdir hnhi
    -- the ring the pipeline runs on
    obtain ⟨ring', hring', hsq', hlater⟩ : ∃ ring', fgdsPipeline head op k ring r =
        uringLoop head op r k.batch 0 0 0 ring' ∧ ring'.sq = [] ∧
        ∀ cs : List Call, (∀ c ∈ cs, 0 ≤ c.kernel.queueInit) →
          laterCalls cs ring' = laterCalls cs ring := by
      obtain ⟨uringInit, sq, owed⟩ := ring
      cases uringInit with
      | true => exact ⟨_, rfl, hsq, fun _ _ => rfl⟩
      | false =>
        obtain rfl : sq = [] := hsq
        obtain rfl : owed = [] := hnew rfl
        refine ⟨⟨true, [], []⟩, ?_, rfl, fun cs hcs => laterCalls_setup hcs⟩
        have := hinit rfl
        simp only [fgdsPipeline, Bool.false_eq_true, ↓reduceIte]
        rw [if_neg (by omega)]
    have hcall : fgdsCall op head k ring r = uringLoop head op r k.batch 0 0 0 ring' := by
      rw [fgdsCall_eq, if_neg hdir, hring']
    by_cases hfirst : FirstAccepted head r
    · refine iff_of_false ?_ (by simp [hdir, hfirst])
      rintro ⟨res, hres, _, hlog, hq, _⟩
      obtain ⟨es, hes, hne, hlen⟩ := firstSubIo_accepted hreg hfirst
      rcases pipeline_trace hlo hhi hsize hes hne hlen hs hsq' (hcall ▸ hres) with h | h
      · exact h hlog
      · exact h hq
    · refine iff_of_true ?_ (Or.inr hfirst)
      have hnone := firstSubIo_refused hreg hlo hhi hfirst
      refine ⟨⟨-1, ring', [], []⟩, ?_, rfl, rfl, hsq', hlater⟩
      rw [hcall, pipeline_first_refused hlo hhi hsize hnone]

end Refused

/-- 64KB behind the end of a 1MB region, on the direct path. -/
theorem refused_no_trace_behind :
    LeavesNoTrace .write [oneSegment 1 4294967296 1048576 1048576] (plainKernel 0)
      ⟨false, [], []⟩ ⟨3, 1048576, 1048576, 65536, 0, 0⟩ := by
  refine (refused_no_trace_iff .write (fun nd hnd => ?_) rfl (fun _ => rfl) (fun _ => Int.le_refl _)
    (plainKernel_complete 0) _ (by decide) (by decide) (by decide) (by decide)
    (fun nd hf => ?_)).mpr (Or.inl (by decide))
  · rw [List.mem_singleton.mp hnd]
    exact oneSegment_registered _ _ _ _ (by decide) (by decide) (by decide) (by decide)
  · rw [List.mem_singleton.mp (List.mem_of_find?_eq_some hf)]
    decide

/-- 768KB at offset 512KB of a 1MB region. -/
def halfOutside : Req := ⟨3, 1048576, 524288, 786432, 0, 0⟩

/-- The request is refused with two SQEs left in the queue; a later read of 512KB takes
them along and returns 1MB. -/
theorem refused_then_counted :
    OutOfRange [oneSegment 1 4294967296 1048576 1048576] halfOutside ∧
      ¬ LeavesNoTrace .read [oneSegment 1 4294967296 1048576 1048576] (plainKernel 8388608)
        ⟨false, [], []⟩ halfOutside ∧
      ((fgdsRead [oneSegment 1 4294967296 1048576 1048576] (plainKernel 8388608)
        ⟨false, [], []⟩ halfOutside).bind fun res =>
          (fgdsRead [oneSegment 1 4294967296 1048576 1048576] (plainKernel 8388608) res.ring
            ⟨3, 1048576, 0, 524288, 0, 1⟩).map IoResult.ret) = some 1048576 := by
  refine ⟨fun nd hf => ?_, ?_, by decide +kernel⟩
  · have hsel : findFgdsMmapNode [oneSegment 1 4294967296 1048576 1048576] halfOutside.gpuBuf
        halfOutside.size = some (oneSegment 1 4294967296 1048576 1048576) := by decide +kernel
    rw [hsel, Option.some.injEq] at hf
    subst hf
    decide
  · rintro ⟨res, hres, _, _, hq, _⟩
    have hleft : ((fgdsCall .read [oneSegment 1 4294967296 1048576 1048576]
        (plainKernel 8388608) ⟨false, [], []⟩ halfOutside).map fun res => res.ring.sq.length) =
        some 2 := by decide +kernel
    rw [hres, Option.map_some, hq] at hleft
    cases hleft

end Fgds.Refusal
