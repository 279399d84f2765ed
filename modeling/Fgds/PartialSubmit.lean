import Fgds.Transfer

/-!
# Submissions that are accepted in part

`io_uring_submit` may return fewer SQEs than were queued. The loop then reaps the CQEs of those
that were accepted, and goes on behind the bytes it had planned for the batch. The SQEs left in
the queue go along with the next batch, of this call or of another one.

* `batchSizes`: the SQEs of each batch, which the request alone decides;
* `Delivers`: what the kernel has to answer to submissions of batches of given sizes;
* `uringLoop_accepting`: whatever the kernel accepts, what was queued was carried out or is still
  in the queue; the queue is empty at the end exactly if the answers are such;
* `partial_submit_iff`: a call loses no sub-I/O and leaves none behind if every submission is
  accepted in full, and, as long as no operation fails, only if the answers deliver its batches;
* `partial_submit_loses`: a read of 512KB that returns 256KB, with the other half in the queue.
-/

namespace Fgds.PartialSubmit

open Fgds.Lib.CInt Fgds.Lib.Tiling Fgds.Device Fgds.Xfer Fgds.Uring Fgds.Pipeline Fgds.ReadWrite
open Fgds.Transfer

/-! ## What is expected of a call -/

section Calls

variable {head : List MmapNode} {r : Req}

/-- If the call returns a number of bytes, all its sub-I/Os have been carried out and reaped; and
it leaves nothing in the queue. -/
structure NothingLost (w : Window head r) (op : Opcode) (res : IoResult) : Prop where
  completed : 0 ≤ res.ret → res.took.Perm res.log ∧
    ∃ qs, Tiles Sqe.len (SqeAt w op) w.b (w.b + w.n) qs ∧ (res.log.map Cqe.sqe).Perm qs
  queue : res.ring.sq = []

/-- How many SQEs the batches of a request hold, from position `done` on, in a queue that is empty
before each of them. -/
def batchSizes (head : List MmapNode) (op : Opcode) (r : Req) (done : Nat) : List Nat :=
  if done < r.size ∧ (fillBatch head op r done 0 0 []).bytes ≠ 0 then
    (fillBatch head op r done 0 0 []).sqeCount ::
      batchSizes head op r (done + (fillBatch head op r done 0 0 []).bytes)
  else []
termination_by r.size - done

/-- `submit i n` is what `io_uring_submit` answers in batch `i` to `n` queued SQEs. With `left`
SQEs in the queue before batch `i`, and the sizes of the batches from there on: no batch finds the
ring too full, and the last submission leaves nothing in the queue. -/
def Delivers (submit : Nat → Nat → Int) : Nat → Nat → List Nat → Prop
  | _, left, [] => left = 0
  | i, left, m :: ms =>
    left + m ≤ fgdsUringQd ∧ Delivers submit (i + 1) (left + m - (submit i (left + m)).toNat) ms

instance Delivers.decidable (submit : Nat → Nat → Int) :
    (i left : Nat) → (sizes : List Nat) → Decidable (Delivers submit i left sizes)
  | _, left, [] => inferInstanceAs (Decidable (left = 0))
  | i, left, m :: ms =>
    have := Delivers.decidable submit (i + 1) (left + m - (submit i (left + m)).toNat) ms
    inferInstanceAs (Decidable (left + m ≤ fgdsUringQd ∧
      Delivers submit (i + 1) (left + m - (submit i (left + m)).toNat) ms))

/-! ## The sizes of the batches -/

section Sizes

variable (op : Opcode)

/-- An entry becomes an SQE as long as the ring has room for it. -/
theorem prepSqes_count (es : List XferAddr) (off : Int) (count : Nat) (sq : List Sqe)
    (hsq : sq.length ≤ fgdsUringQd) :
    ((prepSqes op r es off count sq).1 = false ↔ sq.length + es.length ≤ fgdsUringQd) ∧
      ((prepSqes op r es off count sq).1 = false →
        (prepSqes op r es off count sq).2.1 = count + es.length ∧
        (prepSqes op r es off count sq).2.2.length = sq.length + es.length) := by
  induction es generalizing off count sq with
  | nil => simpa [prepSqes] using hsq
  | cons e es ih =>
    rw [prepSqes]
    by_cases hfull : sq.length ≥ fgdsUringQd
    · rw [if_pos hfull]
      refine ⟨iff_of_false (by simp) ?_, by simp⟩
      rw [List.length_cons]
      omega
    · rw [if_neg hfull]
      obtain ⟨hiff, hnext⟩ := ih (s64 (off + s64 e.nbyte)) (count + 1)
        (sq ++ [⟨op, r.fd, e.targetAddr, u32 e.nbyte, u64 off, r.owner⟩])
        (by rw [List.length_append, List.length_singleton]; omega)
      rw [List.length_append, List.length_singleton] at hiff hnext
      refine ⟨?_, fun hok => ?_⟩
      · rw [hiff, List.length_cons]
        omega
      · obtain ⟨hcount, hlen⟩ := hnext hok
        rw [hcount, hlen, List.length_cons]
        omega

/-- A batch that finds `left` SQEs in the queue is filled as on an empty one, or runs out of
ring. By induction on what is left of the window. -/
theorem fillBatch_shift (w : Window head r) (done bytes count left : Nat) {sq sq₀ : List Sqe}
    (hsq : sq.length = left + count) (hsq₀ : sq₀.length = count) (hroom : sq.length ≤ fgdsUringQd)
    (hpos : done + bytes ≤ w.n) :
    ((fillBatch head op r done count bytes sq).error = false ↔
      left + (fillBatch head op r done count bytes sq₀).sqeCount ≤ fgdsUringQd) ∧
      ((fillBatch head op r done count bytes sq).error = false →
        (fillBatch head op r done count bytes sq).bytes =
          (fillBatch head op r done count bytes sq₀).bytes ∧
        (fillBatch head op r done count bytes sq).sqeCount =
          (fillBatch head op r done count bytes sq₀).sqeCount) := by
  have hsize := w.size
  induction hm : w.n - (done + bytes) using Nat.strong_induction_on
    generalizing bytes count sq sq₀ with
  | _ m ih =>
    rw [fillBatch.eq_def head op r done count bytes sq,
      fillBatch.eq_def head op r done count bytes sq₀]
    by_cases hgo : count < fgdsUringQd ∧ done + bytes < r.size
    swap
    · rw [if_neg hgo, if_neg hgo]
      exact ⟨iff_of_true rfl (by dsimp only; omega), fun _ => ⟨rfl, rfl⟩⟩
    · obtain ⟨es, hes, _, _, hend⟩ := subIo_tiles w (done + bytes) (by omega)
      rw [Nat.cast_add, ← Int.add_assoc] at hes
      rw [if_pos hgo, if_pos hgo]
      simp only [hes]
      by_cases hfull : count + es.length > fgdsUringQd
      · rw [if_pos hfull, if_pos hfull]
        exact ⟨iff_of_true rfl (by dsimp only; omega), fun _ => ⟨rfl, rfl⟩⟩
      rw [if_neg hfull, if_neg hfull]
      have hsub : 0 < subSize r (done + bytes) := subSize_pos r hgo.2
      obtain ⟨hiff, hprep⟩ := prepSqes_count op (r := r) es (s64 (r.fOffset + done + bytes)) count
        sq hroom
      obtain ⟨hiff₀, hprep₀⟩ := prepSqes_count op (r := r) es (s64 (r.fOffset + done + bytes)) count
        sq₀ (by omega)
      have hok₀ := hiff₀.mpr (by omega)
      obtain ⟨hcount₀, hlen₀⟩ := hprep₀ hok₀
      rw [hok₀, if_neg Bool.false_ne_true, hcount₀]
      cases hok : (prepSqes op r es (s64 (r.fOffset + done + bytes)) count sq).1 with
      | true =>
        -- the ring is full before the sub-I/O is queued; on the empty queue the batch goes on
        rw [if_pos rfl]
        refine ⟨iff_of_false (by simp) ?_, by simp⟩
        have hover : ¬ sq.length + es.length ≤ fgdsUringQd := fun h => by
          rw [hiff.mpr h] at hok
          cases hok
        obtain ⟨new, hfill, _⟩ := fillBatch_window w op done (bytes + subSize r (done + bytes))
          (count + es.length)
          (prepSqes op r es (s64 (r.fOffset + done + bytes)) count sq₀).2.2 (by omega) (by omega)
        rw [hfill.count]
        omega
      | false =>
        obtain ⟨hcount, hlen⟩ := hprep hok
        rw [if_neg Bool.false_ne_true, hcount]
        have hle := hiff.mp hok
        exact ih (w.n - (done + (bytes + subSize r (done + bytes)))) (by omega)
          (bytes + subSize r (done + bytes)) (count + es.length) (by omega) (by omega) (by omega)
          (by omega) rfl

/-- The first size, and the rest. -/
theorem batchSizes_cons (w : Window head r) {done : Nat} (hdone : done < w.n) :
    batchSizes head op r done = (fillBatch head op r done 0 0 []).sqeCount ::
        batchSizes head op r (done + (fillBatch head op r done 0 0 []).bytes) ∧
      (fillBatch head op r done 0 0 []).sqeCount ≤ fgdsUringQd := by
  have hsize := w.size
  obtain ⟨new, hfill, hne⟩ := fillBatch_window w op done 0 0 [] (by omega) (by simp)
  have hok := hfill.alone (Nat.le_refl 0)
  have hlt := tiles_lt (hfill.tiles hok) (hne hok (by decide) (by omega))
  have hroom := hfill.room
  rw [List.nil_append] at hroom
  refine ⟨?_, by rw [hfill.count]; omega⟩
  rw [batchSizes, if_pos ⟨by omega, by omega⟩]

theorem batchSizes_end (w : Window head r) : batchSizes head op r w.n = [] := by
  have hsize := w.size
  rw [batchSizes, if_neg (fun h => by omega)]

end Sizes

/-! ## The loop -/

variable (w : Window head r) (op : Opcode)

/-- What a call from position `done` on has queued was carried out or is still in the queue. -/
structure CallRan (ring : Ring) (done : Nat) (res : IoResult) : Prop where
  took : res.took.Perm res.log
  kept : ∃ new, (res.log.map Cqe.sqe ++ res.ring.sq).Perm (ring.sq ++ new) ∧
    (0 ≤ res.ret → Tiles Sqe.len (SqeAt w op) (w.b + done) (w.b + w.n) new)

/-- A batch conserves the SQEs. -/
theorem batchRan_perm {s : Sched} (hs : Accepting s) {ring : Ring} {b : Batch} {total : Int}
    {res : BatchResult} (h : BatchRan s ring b total res) :
    (res.log.map Cqe.sqe ++ res.ring.sq).Perm b.sq := by
  rw [h.log, h.ring]
  have hsplit := List.take_append_drop (taken s b) b.sq
  exact ((hs.complete _).append_right _).trans (List.Perm.of_eq hsplit)

/-- A batch without a failure, and the rest of the call. -/
theorem CallRan.after {ring : Ring} {done : Nat} {b : BatchResult} {new : List Sqe}
    (htook : b.took.Perm b.log)
    (hperm : (b.log.map Cqe.sqe ++ b.ring.sq).Perm (ring.sq ++ new))
    (htiles : Tiles Sqe.len (SqeAt w op) (w.b + done) (w.b + done + b.bytes) new)
    {res : IoResult} (hcall : CallRan w op b.ring (done + b.bytes) res) :
    CallRan w op ring done { res with log := b.log ++ res.log, took := b.took ++ res.took } := by
  obtain ⟨new', hperm', htiles'⟩ := hcall.kept
  refine ⟨htook.append hcall.took, new ++ new', ?_, fun hret => ?_⟩
  · calc (b.log ++ res.log).map Cqe.sqe ++ res.ring.sq
      _ = b.log.map Cqe.sqe ++ (res.log.map Cqe.sqe ++ res.ring.sq) := by
        rw [List.map_append, List.append_assoc]
      List.Perm _ (b.log.map Cqe.sqe ++ (b.ring.sq ++ new')) := hperm'.append_left _
      _ = (b.log.map Cqe.sqe ++ b.ring.sq) ++ new' := (List.append_assoc _ _ _).symm
      List.Perm _ ((ring.sq ++ new) ++ new') := hperm.append_right _
      _ = ring.sq ++ (new ++ new') := List.append_assoc _ _ _
  · have hrest := htiles' hret
    rw [← Nat.add_assoc] at hrest
    exact tiles_append htiles hrest

/-- The outer loop, by induction on what is left of the window, if no operation fails. The queue
may hold SQEs of an earlier batch. -/
theorem uringLoop_accepting {batch : Nat → Sched} (hs : ∀ i, Accepting (batch i))
    (hres : ∀ i qs, ∀ c ∈ (batch i).complete qs, 0 ≤ c.res) (i : Nat) {done : Nat}
    (hdone : done < w.n) (total : Int) {ring : Ring} (howed : ring.owed = [])
    (hroom : ring.sq.length ≤ fgdsUringQd) :
    ∃ res, uringLoop head op r batch i done total ring = some res ∧ CallRan w op ring done res ∧
      (res.ring.sq = [] ↔ Delivers (fun i n => (batch i).submit n) i ring.sq.length
        (batchSizes head op r done)) := by
  have hsize := w.size
  induction hm : w.n - done using Nat.strong_induction_on
    generalizing i done total ring with
  | _ m ih =>
    obtain ⟨b, hb, hran⟩ := uringBatch_ran head op r (hs i) ring howed done total
    obtain ⟨new, hfill, hne⟩ := fillBatch_window w op done 0 0 ring.sq (by omega) hroom
    obtain ⟨hshift, hsame⟩ := fillBatch_shift op w done 0 0 ring.sq.length
      (Nat.add_zero _).symm (List.length_nil : ([] : List Sqe).length = 0) hroom (by omega)
    obtain ⟨hsizes, hle⟩ := batchSizes_cons op w hdone
    have hperm := batchRan_perm (hs i) hran
    rw [hfill.queued] at hperm
    rw [uringLoop, if_pos (by omega), hsizes, Delivers]
    simp only [hb]
    cases hok : (fillBatch head op r done 0 0 ring.sq).error with
    | true =>
      -- the ring is too full: the call ends, and what was queued stays
      have he : b.error = true := hran.error.mpr (.inl hok)
      have hover : ¬ ring.sq.length + (fillBatch head op r done 0 0 []).sqeCount ≤ fgdsUringQd := by
        intro h
        rw [hshift.mpr h] at hok
        cases hok
      rw [if_pos he]
      refine ⟨_, rfl, ⟨hran.took, new, hperm, fun hret => by cases hret⟩, ?_⟩
      refine iff_of_false (fun hnil => ?_) fun h => hover h.1
      have hqueue : (fillBatch head op r done 0 0 ring.sq).sq.length = 0 := by
        have hdrop := congrArg List.length hnil
        rw [hran.ring] at hdrop
        simpa [taken, hok] using hdrop
      rw [hfill.queued, List.length_append] at hqueue
      omega
    | false =>
      have he : b.error = false := by
        cases hbe : b.error with
        | false => rfl
        | true =>
          rcases hran.error.mp hbe with hf | ⟨c, hc, hneg⟩
          · rw [hok] at hf
            cases hf
          · rw [hran.log] at hc
            exact absurd (hres i _ c hc) (Int.not_le.mpr hneg)
      have htiles := hfill.tiles hok
      have hnew := hne hok (by decide) (by omega)
      have hpos := tiles_lt htiles hnew
      have hbound := hfill.bound
      obtain ⟨hbytes, hcount⟩ := hsame hok
      rw [← hran.bytes] at htiles hpos hbound hbytes
      have howed' : b.ring.owed = [] := by rw [hran.ring]
      -- what the kernel has not taken is left for the next batch
      have hqueue : (fillBatch head op r done 0 0 ring.sq).sq.length =
          ring.sq.length + (fillBatch head op r done 0 0 []).sqeCount := by
        rw [hfill.queued, List.length_append, ← hcount, hfill.count, Nat.zero_add]
      have hleft : b.ring.sq.length = ring.sq.length +
          (fillBatch head op r done 0 0 []).sqeCount - ((batch i).submit (ring.sq.length +
            (fillBatch head op r done 0 0 []).sqeCount)).toNat := by
        have hnot : ¬ ((fillBatch head op r done 0 0 ring.sq).error = true ∨
            (fillBatch head op r done 0 0 ring.sq).sqeCount = 0) := by
          rw [hok, hfill.count, Nat.zero_add]
          simpa using hnew
        rw [hran.ring, List.length_drop, taken, if_neg hnot, hqueue]
      have hroom' : b.ring.sq.length ≤ fgdsUringQd := by
        have := hshift.mp hok
        omega
      rw [he, if_neg Bool.false_ne_true, if_neg (by omega), ← hleft, ← hbytes,
        and_iff_right (hshift.mp hok)]
      by_cases hmore : done + b.bytes < r.size
      · obtain ⟨res, hres', hcall, hlast⟩ := ih (w.n - (done + b.bytes)) (by omega) (i + 1)
          (by omega) b.total howed' hroom' rfl
        exact ⟨_, by rw [hres']; rfl, hcall.after w op hran.took hperm htiles, hlast⟩
      · -- the batch has queued the last bytes of the request
        have hend : done + b.bytes = w.n := by omega
        rw [uringLoop, if_neg hmore, hend, batchSizes_end, Delivers]
        refine ⟨_, rfl, ⟨?_, new, ?_, fun _ => ?_⟩, ?_⟩
        · simpa using hran.took
        · simpa using hperm
        · rw [← hend, ← Nat.add_assoc]
          exact htiles
        · exact List.length_eq_zero_iff.symm

/-- If every submission is accepted in full, nothing is lost, whatever the operations return. -/
theorem nothingLost_full {k : Kernel} (hs : ∀ i, Accepting (k.batch i))
    (hfull : ∀ i n, (k.batch i).submit n = n) {ring : Ring} (hidle : Ring.Idle ring)
    (hinit : ring.uringInit = true ∨ 0 ≤ k.queueInit) {res : IoResult}
    (hres : fgdsPipeline head op k ring r = some res) : NothingLost w op res := by
  have hfair : ∀ i, Fair (k.batch i) :=
    fun i => ⟨hfull i, (hs i).complete, (hs i).merge, (hs i).wait⟩
  obtain ⟨res', ring', hres', hidle', hcall⟩ := fgdsPipeline_window w op hinit hfair hidle
  rw [hres, Option.some.injEq] at hres'
  subst hres'
  refine ⟨fun hret => ⟨hcall.took, ?_⟩, by rw [hcall.ring]; exact hidle'.1⟩
  obtain ⟨m, qs, _, htiles, hperm, hend⟩ := hcall.tiles
  have hgood : ∀ c ∈ res.log, 0 ≤ c.res := by
    intro c hc
    by_contra hneg
    have := hcall.failed ⟨c, hc, by omega⟩
    omega
  rw [hend hgood, Nat.add_zero] at htiles
  exact ⟨qs, htiles, hperm⟩

/-- A call of the pipeline on a window and an idle ring loses no sub-I/O and leaves none behind if
every submission is accepted in full, whatever the operations return. As long as no operation
fails it does so if and only if the ring cannot be set up or the kernel's answers deliver the
batches of the request. -/
theorem partial_submit_iff (hlarge : threshold op ≤ w.n) {k : Kernel}
    (hs : ∀ i, Accepting (k.batch i)) {ring : Ring} (hidle : Ring.Idle ring) :
    ((∀ i n, (k.batch i).submit n = n) →
      ∃ res, fgdsCall op head k ring r = some res ∧ NothingLost w op res) ∧
    ((∀ i qs, ∀ c ∈ (k.batch i).complete qs, 0 ≤ c.res) →
      ∃ res, fgdsCall op head k ring r = some res ∧
        (NothingLost w op res ↔ (ring.uringInit = false ∧ k.queueInit < 0) ∨
          Delivers (fun i n => (k.batch i).submit n) 0 0 (batchSizes head op r 0))) := by
  have hnbyte := w.nbyte
  have hpos : 0 < w.n := Nat.lt_of_lt_of_le (by cases op <;> decide) hlarge
  rw [fgdsCall_eq, if_neg (by omega)]
  by_cases hfail : ring.uringInit = false ∧ k.queueInit < 0
  · have hnone : fgdsPipeline head op k ring r = some ⟨-1, ring, [], []⟩ := by
      rw [fgdsPipeline, if_neg (by simp [hfail.1]), if_pos hfail.2]
    have hlost : NothingLost w op ⟨-1, ring, [], []⟩ := 
      ⟨fun hret => absurd (show (0 : Int) ≤ -1 from hret) (by decide), hidle.1⟩
    exact ⟨fun _ => ⟨_, hnone, hlost⟩, fun _ => ⟨_, hnone, iff_of_true hlost (.inl hfail)⟩⟩
  have hinit : ring.uringInit = true ∨ 0 ≤ k.queueInit := by
    cases hset : ring.uringInit with
    | true => exact .inl rfl
    | false => exact .inr (Int.not_lt.mp fun h => hfail ⟨hset, h⟩)
  refine ⟨fun hfull => ?_, fun hgood => ?_⟩
  · have hfair : ∀ i, Fair (k.batch i) :=
      fun i => ⟨hfull i, (hs i).complete, (hs i).merge, (hs i).wait⟩
    obtain ⟨res, _, hres, _⟩ := fgdsPipeline_window w op hinit hfair hidle
    exact ⟨res, hres, nothingLost_full w op hs hfull hidle hinit hres⟩
  · have hstart : fgdsPipeline head op k ring r =
        uringLoop head op r k.batch 0 0 0 ⟨true, [], []⟩ := by
      obtain ⟨uringInit, sq, owed⟩ := ring
      obtain ⟨rfl, rfl⟩ : sq = [] ∧ owed = [] := hidle
      unfold fgdsPipeline
      cases uringInit with
      | true => rfl
      | false =>
        have hqueue : ¬ k.queueInit < 0 := fun h => hfail ⟨rfl, h⟩
        simp [hqueue]
    obtain ⟨res, hres, hcall, hlast⟩ :=
      uringLoop_accepting w op hs hgood 0 hpos 0 (rfl : (⟨true, [], []⟩ : Ring).owed = [])
        (Nat.zero_le _)
    refine ⟨res, hstart.trans hres, ?_⟩
    rw [or_iff_right hfail]
    refine Iff.trans ?_ hlast
    constructor
    · exact fun h => h.queue
    · intro hqueue
      refine ⟨fun hret => ⟨hcall.took, ?_⟩, hqueue⟩
      obtain ⟨new, hperm, htiles⟩ := hcall.kept
      rw [hqueue, List.append_nil, List.nil_append] at hperm
      exact ⟨new, htiles hret, hperm⟩

end Calls

/-! ## Half of a megabyte -/

/-- The first 512KB of a region of 4MB: two sub-I/Os. -/
def halfMegabyte : Window [oneSegment 1 4294967296 1048576 4194304]
    ⟨3, 1048576, 0, 524288, 0, 0⟩ where
  nd := oneSegment 1 4294967296 1048576 4194304
  b := 0
  n := 524288
  bufOffset := rfl
  nbyte := rfl
  registered := fourMb_registered
  inside := by decide
  selects := selects_newest (by decide) (by decide) (by decide) []

/-- 64MB and 256KB of a region of 128MB: a full batch, and one of a single SQE. -/
def twoBatches : Window [oneSegment 1 4294967296 1048576 134217728]
    ⟨3, 1048576, 0, 67371008, 0, 0⟩ where
  nd := oneSegment 1 4294967296 1048576 134217728
  b := 0
  n := 67371008
  bufOffset := rfl
  nbyte := rfl
  registered := oneSegment_registered _ _ _ _ (by decide) (by decide) (by decide) (by decide)
  inside := by decide
  selects := selects_newest (by decide) (by decide) (by decide) []

/-- A kernel that does not accept the last of 256 SQEs. -/
def oneShort : Kernel :=
  { plainKernel 67371008 with
    batch := fun i => { (plainKernel 67371008).batch i with submit := fun n => min n 255 } }

theorem oneShort_accepting (i : Nat) : Accepting (oneShort.batch i) where
  submit n := by
    simp only [oneShort]
    omega
  complete := plainKernel_complete 67371008 i
  merge _ _ := List.Perm.refl _
  wait _ := rfl

theorem oneShort_results (i : Nat) (qs : List Sqe) : ∀ c ∈ (oneShort.batch i).complete qs,
    0 ≤ c.res := by
  intro c hc
  simp only [oneShort, plainKernel, List.mem_map] at hc
  obtain ⟨q, _, rfl⟩ := hc
  dsimp only
  split <;> exact Int.natCast_nonneg _

theorem twoBatches_sizes : batchSizes [oneSegment 1 4294967296 1048576 134217728] .read
    ⟨3, 1048576, 0, 67371008, 0, 0⟩ 0 = [256, 1] := by
  decide +kernel

/-- All SQEs of a read are accepted; and the one that is left of the first batch of another read
goes along with the second. -/
theorem partial_submit_delivered :
    (∃ res, fgdsCall .read [oneSegment 1 4294967296 1048576 4194304] (plainKernel 524288)
        ⟨false, [], []⟩ ⟨3, 1048576, 0, 524288, 0, 0⟩ = some res ∧
      NothingLost halfMegabyte .read res) ∧
    ∃ res, fgdsCall .read [oneSegment 1 4294967296 1048576 134217728] oneShort
        ⟨false, [], []⟩ ⟨3, 1048576, 0, 67371008, 0, 0⟩ = some res ∧
      NothingLost twoBatches .read res := by
  refine ⟨(partial_submit_iff halfMegabyte .read (by decide)
    (fun i => (plainKernel_fair 524288 i).accepting)
    (⟨rfl, rfl⟩ : Ring.Idle ⟨false, [], []⟩)).1 fun _ _ => rfl, ?_⟩
  obtain ⟨res, hres, hiff⟩ := (partial_submit_iff twoBatches .read (by decide) oneShort_accepting
    (⟨rfl, rfl⟩ : Ring.Idle ⟨false, [], []⟩)).2 oneShort_results
  refine ⟨res, hres, hiff.mpr (.inr ?_)⟩
  rw [twoBatches_sizes]
  decide

/-- A kernel that accepts one SQE at a time. -/
def oneByOne : Kernel :=
  { plainKernel 524288 with
    batch := fun i => { (plainKernel 524288).batch i with submit := fun n => min n 1 } }

theorem oneByOne_accepting (i : Nat) : Accepting (oneByOne.batch i) where
  submit n := by
    simp only [oneByOne]
    omega
  complete := plainKernel_complete 524288 i
  merge _ _ := List.Perm.refl _
  wait _ := rfl

/-- The read returns 256KB; the SQE for the other half is left in the queue. -/
theorem partial_submit_loses :
    (∀ i, Accepting (oneByOne.batch i)) ∧ ∃ res,
      fgdsCall .read [oneSegment 1 4294967296 1048576 4194304] oneByOne ⟨false, [], []⟩
        ⟨3, 1048576, 0, 524288, 0, 0⟩ = some res ∧ res.ret = 262144 ∧
      res.ring.sq = [⟨.read, 3, 4295229440, 262144, 262144, 0⟩] ∧
      ¬ NothingLost halfMegabyte .read res := by
  have hcall : (fgdsCall .read [oneSegment 1 4294967296 1048576 4194304] oneByOne
      ⟨false, [], []⟩ ⟨3, 1048576, 0, 524288, 0, 0⟩).map (fun res => (res.ret, res.ring.sq)) =
      some (262144, [⟨.read, 3, 4295229440, 262144, 262144, 0⟩]) := by decide +kernel
  obtain ⟨res, hres, hvalues⟩ := Option.map_eq_some_iff.mp hcall
  obtain ⟨hret, hsq⟩ : res.ret = 262144 ∧ res.ring.sq = _ := Prod.mk.inj hvalues
  refine ⟨oneByOne_accepting, res, hres, hret, hsq, fun h => ?_⟩
  have hnil := h.queue
  rw [hsq] at hnil
  cases hnil

end Fgds.PartialSubmit
