import Fgds.Lib.Tiling
import Fgds.Uring

/-!
# What the pipeline does with a window inside a region

`Window` is a request whose window lies in a completely registered region. For such a
request, on an idle ring and with a kernel that takes every SQE and lets no wait fail:

* `fillBatch_window`: a batch queues SQEs that cut the next part of the window into
  consecutive pieces, at most 256 of them, and at least one;
* `uringBatch_window`: the batch reaps exactly the CQEs of the SQEs it queued, whatever
  their order and results, and leaves the ring idle;
* `uringLoop_window`: so does the whole call, piece after piece to the end of the window
  or to the first failure.
-/

namespace Fgds.Pipeline

open Fgds.Lib.CInt Fgds.Lib.Tiling Fgds.Device Fgds.Xfer Fgds.Uring

/-! ## Windows -/

/-- The request of a call asks for the window `[b, b + n)` of region `nd`. -/
structure Window (head : List MmapNode) (r : Req) where
  nd : MmapNode
  b : Nat
  n : Nat
  bufOffset : r.bufOffset = b
  nbyte : r.nbyte = n
  registered : nd.Registered
  inside : b + n ≤ nd.length
  selects : Selects head r.gpuBuf n nd

/-- SQE `q` is the transfer of the bytes from offset `p` of the region on. -/
structure SqeAt {head : List MmapNode} {r : Req} (w : Window head r) (op : Opcode) (p : Nat)
    (q : Sqe) : Prop where
  opcode : q.opcode = op
  fd : q.fd = r.fd
  owner : q.owner = r.owner
  addr : q.addr = w.nd.hostAddr p
  off : q.off = u64 (r.fOffset + (p - w.b : Nat))
  segment : (p + q.len - 1) / fgdsMmapSegmentSize = p / fgdsMmapSegmentSize

section Fill

variable {head : List MmapNode} {r : Req} (w : Window head r) (op : Opcode)

theorem Window.length_lt : w.b + w.n < 2 ^ 61 :=
  Nat.lt_of_le_of_lt w.inside w.registered.length_lt

theorem Window.size : r.size = w.n := by
  have := w.length_lt
  exact u64_eq w.nbyte (by omega)

/-- The entries of a segment list become SQEs at the same positions, if the ring has room for
them. -/
theorem prepSqes_tiles (count : Nat) (sq : List Sqe) (hsq : sq.length ≤ fgdsUringQd)
    {es : List XferAddr} {p q : Nat} (ht : Tiles XferAddr.nbyte (XferAddr.At w.nd) p q es)
    (hp : w.b ≤ p) :
    ∃ new full, prepSqes op r es (s64 (r.fOffset + (p - w.b : Nat))) count sq =
        (full, count + new.length, sq ++ new) ∧ (sq ++ new).length ≤ fgdsUringQd ∧
      (full = false ↔ sq.length + es.length ≤ fgdsUringQd) ∧
      (full = false → Tiles Sqe.len (SqeAt w op) p q new) := by
  induction es generalizing p count sq with
  | nil =>
    exact ⟨[], false, by simp [prepSqes], by simpa using hsq, by simpa using hsq, fun _ => ht⟩
  | cons e es ih =>
    obtain ⟨hpos, hat, hrest⟩ := ht
    by_cases hfull : sq.length ≥ fgdsUringQd
    · refine ⟨[], true, ?_, by simpa using hsq, by simp; omega, by simp⟩
      rw [prepSqes, if_pos hfull]
      simp
    have hsmall := hat.nbyte_le
    simp only [fgdsMmapSegmentSize] at hsmall
    have hlen : u32 e.nbyte = e.nbyte := u32_eq rfl (by omega)
    have hsum : p - w.b + e.nbyte = p + e.nbyte - w.b := by omega
    have hnext : s64 (s64 (r.fOffset + (p - w.b : Nat)) + s64 e.nbyte) =
        s64 (r.fOffset + (p + e.nbyte - w.b : Nat)) := by
      rw [s64_add, Int.add_assoc, ← Nat.cast_add, hsum]
    obtain ⟨q₀, hq₀⟩ : ∃ q₀ : Sqe, q₀ =
      ⟨op, r.fd, e.targetAddr, e.nbyte, u64 (r.fOffset + (p - w.b : Nat)), r.owner⟩ := ⟨_, rfl⟩
    obtain ⟨new, full, hprep, hroom, hiff, htiles⟩ := ih (count + 1) (sq ++ [q₀])
      (by simp; omega) hrest (by omega)
    refine ⟨q₀ :: new, full, ?_, ?_, ?_, fun hok => ?_⟩
    · rw [prepSqes, if_neg hfull, hlen, u64_s64, hnext, ← hq₀, hprep]
      simp only [List.length_cons, List.append_assoc, List.cons_append, List.nil_append,
        Prod.mk.injEq, true_and, and_true]
      omega
    · rw [List.append_assoc, List.singleton_append] at hroom
      exact hroom
    · rw [hiff]
      simp only [List.length_append, List.length_cons, List.length_nil]
      omega
    · have hlen₀ : q₀.len = e.nbyte := by rw [hq₀]
      refine ⟨by omega, ?_, ?_⟩
      · rw [hq₀]
        exact ⟨rfl, rfl, rfl, hat.1, rfl, hat.2⟩
      · rw [hlen₀]
        exact htiles hok

/-- What the filling loop leaves: the SQEs `new` behind those already queued. The only error is
a full ring, which takes SQEs in the queue that the batch has not counted. -/
structure Filled (done bytes count : Nat) (sq : List Sqe) (res : Batch) (new : List Sqe) :
    Prop where
  error : res.error = res.exhausted
  alone : sq.length ≤ count → res.error = false
  queued : res.sq = sq ++ new
  count : res.sqeCount = count + new.length
  room : (sq ++ new).length ≤ fgdsUringQd
  bound : done + res.bytes ≤ w.n
  tiles : res.error = false →
    Tiles Sqe.len (SqeAt w op) (w.b + done + bytes) (w.b + done + res.bytes) new

/-- A sub-I/O lies inside the window, so it is translated, into at most two entries. -/
theorem subIo_tiles (pos : Nat) (hpos : pos < w.n) :
    ∃ es, fgdsDoXferAddr head r.gpuBuf (s64 (r.bufOffset + pos)) (subSize r pos) = some es ∧
      Tiles XferAddr.nbyte (XferAddr.At w.nd) (w.b + pos) (w.b + pos + subSize r pos) es ∧
      es.length ≤ 2 ∧ pos + subSize r pos ≤ w.n := by
  have hlt := w.length_lt
  have hin := w.inside
  have hsize := w.size
  have hsub : 0 < subSize r pos := subSize_pos r (by omega)
  have hle : pos + subSize r pos ≤ w.n ∧ subSize r pos ≤ fgdsSubIoSize := by
    unfold subSize
    split <;> omega
  obtain ⟨es, hes, ht, hl⟩ := xferWindow_inside (b := w.b + pos) w.registered hsub (by omega)
  have hoff : s64 (r.bufOffset + pos) = (w.b + pos : Nat) := by
    rw [w.bufOffset, ← Nat.cast_add]
    exact s64_eq (by omega) (by omega)
  refine ⟨es, ?_, ht, ?_, hle.1⟩
  · rw [fgdsDoXferAddr_some (w.selects _ hsub (by omega)), hoff, hes]
  · have := hle.2
    simp only [fgdsMmapSegmentSize, fgdsSubIoSize] at *
    omega

/-- The filling loop, by induction on what is left of the window. -/
theorem fillBatch_window (done bytes count : Nat) (sq : List Sqe) (hpos : done + bytes ≤ w.n)
    (hroom : sq.length ≤ fgdsUringQd) :
    ∃ new, Filled w op done bytes count sq (fillBatch head op r done count bytes sq) new ∧
      ((fillBatch head op r done count bytes sq).error = false → count + 2 ≤ fgdsUringQd →
        done + bytes < w.n → new ≠ []) := by
  have hsize := w.size
  induction hm : w.n - (done + bytes) using Nat.strong_induction_on
    generalizing bytes count sq with
  | _ m ih =>
    by_cases hgo : count < fgdsUringQd ∧ done + bytes < r.size
    swap
    · refine ⟨[], ?_, fun _ _ _ => by omega⟩
      rw [fillBatch, if_neg hgo]
      exact ⟨rfl, fun _ => rfl, by simp, by simp, by simpa using hroom, hpos, fun _ => rfl⟩
    · obtain ⟨es, hes, ht, hlen, hend⟩ := subIo_tiles w (done + bytes) (by omega)
      rw [Nat.cast_add, ← Int.add_assoc] at hes
      rw [fillBatch, if_pos hgo]
      simp only [hes]
      by_cases hfull : count + es.length > fgdsUringQd
      · refine ⟨[], ?_, fun _ _ _ => by omega⟩
        rw [if_pos hfull]
        exact ⟨rfl, fun _ => rfl, by simp, by simp, by simpa using hroom, hpos, fun _ => rfl⟩
      · rw [if_neg hfull]
        obtain ⟨new, full, hprep, hroom', hiff, htiles⟩ :=
          prepSqes_tiles w op count sq hroom ht (by omega)
        have hfoff : s64 (r.fOffset + done + bytes) =
            s64 (r.fOffset + (w.b + (done + bytes) - w.b : Nat)) := by
          rw [Nat.add_sub_cancel_left, Nat.cast_add, Int.add_assoc]
        rw [hfoff, hprep]
        dsimp only
        cases full with
        | true =>
          -- the ring was not empty: the SQEs queued so far stay, and the batch is an error
          refine ⟨new, ?_, by simp⟩
          rw [if_pos rfl]
          refine ⟨rfl, fun hle => ?_, rfl, rfl, hroom', hpos, by simp⟩
          have hfalse := hiff.mpr (by omega)
          cases hfalse
        | false =>
          rw [if_neg (by simp)]
          have hsub : 0 < subSize r (done + bytes) := subSize_pos r hgo.2
          have htiles := htiles rfl
          have hne : new ≠ [] := by
            rintro rfl
            rw [tiles_nil] at htiles
            omega
          obtain ⟨rest, hrest, _⟩ := ih (w.n - (done + (bytes + subSize r (done + bytes))))
            (by omega) (bytes + subSize r (done + bytes)) (count + new.length) (sq ++ new)
            (by omega) hroom' rfl
          refine ⟨new ++ rest, ⟨hrest.error, fun hle => hrest.alone ?_, ?_, ?_, ?_, hrest.bound,
            fun hok => ?_⟩, fun _ _ _ => by simp [hne]⟩
          · rw [List.length_append]
            omega
          · rw [hrest.queued, List.append_assoc]
          · rw [hrest.count, List.length_append]
            omega
          · rw [← List.append_assoc]
            exact hrest.room
          · have hjoin := hrest.tiles hok
            rw [← Nat.add_assoc, Nat.add_assoc w.b done bytes] at hjoin
            rw [Nat.add_assoc w.b done bytes]
            exact tiles_append htiles hjoin

end Fill

/-! ## Reaping -/

/-- The kernel takes some of the queued SQEs, in their order, yields one CQE for each, in any
order and with any result, and lets no wait fail. -/
structure Accepting (s : Sched) : Prop where
  submit : ∀ n, 0 ≤ s.submit n ∧ s.submit n ≤ n
  complete : ∀ qs, ((s.complete qs).map Cqe.sqe).Perm qs
  merge : ∀ a b, (s.merge a b).Perm (a ++ b)
  wait : ∀ i, s.waitFails i = false

/-- The kernel accepts every queued SQE, yields one CQE for each, in any order and with
any result, and lets no wait fail. -/
structure Fair (s : Sched) : Prop where
  submit : ∀ n, s.submit n = n
  complete : ∀ qs, ((s.complete qs).map Cqe.sqe).Perm qs
  merge : ∀ a b, (s.merge a b).Perm (a ++ b)
  wait : ∀ i, s.waitFails i = false

theorem Fair.accepting {s : Sched} (h : Fair s) : Accepting s :=
  ⟨fun n => by rw [h.submit]; omega, h.complete, h.merge, h.wait⟩

def Ring.Idle (ring : Ring) : Prop := ring.sq = [] ∧ ring.owed = []

/-- The sum of the results. -/
def sumRes (cs : List Cqe) : Int := (cs.map Cqe.res).sum

@[simp] theorem sumRes_nil : sumRes [] = 0 := rfl

@[simp] theorem sumRes_cons (c : Cqe) (cs : List Cqe) : sumRes (c :: cs) = c.res + sumRes cs := rfl

@[simp] theorem sumRes_append (cs ds : List Cqe) : sumRes (cs ++ ds) = sumRes cs + sumRes ds := by
  simp [sumRes]

theorem sumRes_perm {cs ds : List Cqe} (h : cs.Perm ds) : sumRes cs = sumRes ds :=
  (h.map Cqe.res).sum_eq

section Reaping

variable {s : Sched}

/-- The reap loop takes all CQEs owed, or stops behind the first failed one. -/
theorem reapLoop_accepting (hs : Accepting s) (st : Reap) {rounds : Nat} (he : st.error = false)
    (hr : st.owed.length = rounds) :
    ∃ st', reapLoop s rounds st = some st' ∧ st'.took ++ st'.owed = st.took ++ st.owed ∧
      st'.reaped + st'.owed.length = st.reaped + rounds ∧
      (st'.error = true ↔ ∃ c ∈ st.owed, c.res < 0) ∧
      (st'.error = false → st'.owed = [] ∧ st'.total = st.total + sumRes st.owed) := by
  induction rounds generalizing st with
  | zero =>
    have hnil := List.eq_nil_of_length_eq_zero hr
    exact ⟨st, rfl, rfl, by omega, by simp [he, hnil], fun _ => ⟨hnil, by simp [hnil]⟩⟩
  | succ rounds ih =>
    cases ho : st.owed with
    | nil => simp [ho] at hr
    | cons c owed =>
      rw [ho, List.length_cons, Nat.add_right_cancel_iff] at hr
      simp only [reapLoop, hs.wait, Bool.false_eq_true, ↓reduceIte, ho]
      by_cases hneg : c.res < 0
      · refine ⟨_, if_pos hneg, by simp, by simp; omega, ?_, by simp⟩
        simp only [true_iff]
        exact ⟨c, List.mem_cons_self, hneg⟩
      · obtain ⟨st', hrun, htook, hreap, herr, htot⟩ := ih { st with
          reaped := st.reaped + 1, waits := st.waits + 1, owed, took := st.took ++ [c],
          total := st.total + c.res } he hr
        dsimp only at htook hreap herr htot
        refine ⟨st', by rw [if_neg hneg, hrun], ?_, ?_, ?_, fun hok => ?_⟩
        · rw [htook, List.append_assoc, List.singleton_append]
        · rw [hreap]; omega
        · rw [herr]
          simp [hneg]
        · obtain ⟨hnil, hsum⟩ := htot hok
          exact ⟨hnil, by rw [hsum, sumRes_cons]; omega⟩

theorem drainLoop_accepting (hs : Accepting s) (st : Reap) {rounds : Nat}
    (hr : st.owed.length = rounds) :
    ∃ st', drainLoop s rounds st = some st' ∧ st'.took = st.took ++ st.owed ∧ st'.owed = [] ∧
      st'.error = st.error ∧ st'.total = st.total := by
  induction rounds generalizing st with
  | zero =>
    have hnil := List.eq_nil_of_length_eq_zero hr
    exact ⟨st, rfl, by simp [hnil], hnil, rfl, rfl⟩
  | succ rounds ih =>
    cases ho : st.owed with
    | nil => simp [ho] at hr
    | cons c owed =>
      rw [ho, List.length_cons, Nat.add_right_cancel_iff] at hr
      simp only [drainLoop, hs.wait, Bool.false_eq_true, ↓reduceIte, ho]
      obtain ⟨st', hrun, htook, hrest⟩ := ih { st with
        reaped := st.reaped + 1, waits := st.waits + 1, owed, took := st.took ++ [c] } hr
      refine ⟨st', hrun, ?_, hrest⟩
      rw [htook, List.append_assoc, List.singleton_append]

/-- The error path reaps what is left, however much of it the peek found. -/
theorem cleanup_accepting (hs : Accepting s) (st : Reap) {submitted : Nat}
    (hr : st.reaped + st.owed.length = submitted) :
    ∃ st', cleanup s submitted st = some st' ∧ st'.took = st.took ++ st.owed ∧ st'.owed = [] ∧
      st'.error = st.error ∧ st'.total = st.total := by
  have hleft : (peekLoop s st).owed.length = submitted - (peekLoop s st).reaped := by
    simp only [peekLoop, List.length_drop]
    omega
  obtain ⟨st', hrun, htook, hrest⟩ := drainLoop_accepting hs (peekLoop s st) hleft
  refine ⟨st', hrun, ?_, hrest⟩
  rw [htook]
  simp [peekLoop]

end Reaping

/-! ## Batches -/

/-- How many of the queued SQEs the kernel takes. -/
def taken (s : Sched) (b : Batch) : Nat :=
  if b.error ∨ b.sqeCount = 0 then 0 else (s.submit b.sq.length).toNat

theorem Accepting.complete_nil {s : Sched} (hs : Accepting s) : s.complete [] = [] :=
  List.map_eq_nil_iff.mp (hs.complete []).eq_nil

theorem Accepting.merge_nil {s : Sched} (hs : Accepting s) : s.merge [] [] = [] :=
  (hs.merge [] []).eq_nil

theorem Accepting.taken_le {s : Sched} (hs : Accepting s) (b : Batch) :
    taken s b ≤ b.sq.length := by
  have := hs.submit b.sq.length
  unfold taken
  split <;> omega

theorem submitPhase_accepting {s : Sched} (hs : Accepting s) (b : Batch) :
    submitPhase s b [] = ⟨b.error, taken s b, b.sq.drop (taken s b),
      s.merge [] (s.complete (b.sq.take (taken s b))), s.complete (b.sq.take (taken s b))⟩ := by
  have hsubmit := (hs.submit b.sq.length).1
  unfold submitPhase taken
  cases he : b.error with
  | true => simp [hs.complete_nil, hs.merge_nil]
  | false =>
    by_cases hzero : b.sqeCount = 0
    · simp [hzero, hs.complete_nil, hs.merge_nil]
    · simp only [Bool.false_eq_true, hzero, or_self, ↓reduceIte]
      rw [if_neg (by omega)]

/-- A batch on a ring where no CQE is owed: what the kernel took was carried out and reaped, the
rest stays in the queue. -/
structure BatchRan (s : Sched) (ring : Ring) (b : Batch) (total : Int) (res : BatchResult) :
    Prop where
  exhausted : res.exhausted = b.exhausted
  bytes : res.bytes = b.bytes
  ring : res.ring = ⟨ring.uringInit, b.sq.drop (taken s b), []⟩
  log : res.log = s.complete (b.sq.take (taken s b))
  took : res.took.Perm res.log
  error : res.error = true ↔ b.error = true ∨ ∃ c ∈ res.log, c.res < 0
  total : res.error = false → res.total = total + sumRes res.log

theorem uringBatch_ran (head : List MmapNode) (op : Opcode) (r : Req) {s : Sched}
    (hs : Accepting s) (ring : Ring) (howed : ring.owed = []) (done : Nat) (total : Int) :
    ∃ res, uringBatch head op r s done total ring = some res ∧
      BatchRan s ring (fillBatch head op r done 0 0 ring.sq) total res := by
  obtain ⟨b, hb⟩ : ∃ b, b = fillBatch head op r done 0 0 ring.sq := ⟨_, rfl⟩
  obtain ⟨cs, hcs⟩ : ∃ cs, cs = s.complete (b.sq.take (taken s b)) := ⟨_, rfl⟩
  have hsub := submitPhase_accepting hs b
  rw [← hcs] at hsub
  have howe : (s.merge [] cs).Perm cs := hs.merge [] cs
  have hlen : (s.merge [] cs).length = taken s b := by
    have hperm := hs.complete (b.sq.take (taken s b))
    have htake := hs.taken_le b
    rw [howe.length_eq, hcs, ← List.length_map (f := Cqe.sqe), hperm.length_eq, List.length_take]
    omega
  cases he : b.error with
  | true =>
    -- nothing is submitted
    have hzero : taken s b = 0 := by simp [taken, he]
    have hnil : cs = [] := by rw [hcs, hzero, List.take_zero, hs.complete_nil]
    refine ⟨⟨true, b.exhausted, b.bytes, total, ⟨ring.uringInit, b.sq, []⟩, [], []⟩, ?_, ?_⟩
    · simp [uringBatch, ← hb, howed, hsub, he, hzero, hnil, hs.merge_nil]
    · rw [← hb]
      refine ⟨rfl, rfl, by simp [hzero], by rw [← hcs, hnil], List.Perm.refl _, by simp [he],
        by simp⟩
  | false =>
    obtain ⟨st, hrun, htook, hreap, herr, htot⟩ := reapLoop_accepting hs
      ⟨false, 0, 0, total, s.merge [] cs, []⟩ rfl hlen
    dsimp only [List.nil_append] at htook hreap herr htot
    -- with or without the error path, everything owed has been reaped
    have hend : ∃ st', (if st.error = true ∧ 0 < taken s b then cleanup s (taken s b) st
        else some st) = some st' ∧ st'.took = s.merge [] cs ∧ st'.owed = [] ∧
        st'.error = st.error ∧ st'.total = st.total := by
      cases hst : st.error with
      | false =>
        obtain ⟨hnil, _⟩ := htot hst
        rw [hnil, List.append_nil] at htook
        exact ⟨st, by simp, htook, hnil, hst, rfl⟩
      | true =>
        obtain ⟨c, hc, _⟩ := herr.mp hst
        have hpos : 0 < taken s b := by
          rw [← hlen]
          exact List.length_pos_of_mem hc
        obtain ⟨st', hclean, htook', hnil, he', htot'⟩ :=
          cleanup_accepting hs st (hreap.trans (Nat.zero_add _))
        exact ⟨st', by simp [hpos, hclean], htook'.trans htook, hnil, he'.trans hst, htot'⟩
    obtain ⟨st', hfin, htook', hnil, he', htot'⟩ := hend
    refine ⟨⟨st'.error, b.exhausted, b.bytes, st'.total,
      ⟨ring.uringInit, b.sq.drop (taken s b), []⟩, cs, st'.took⟩, ?_, ?_⟩
    · simp only [uringBatch, ← hb, howed, hsub, he, Bool.false_eq_true, ↓reduceIte, hrun,
        Option.bind_some, hfin, Option.map_some, hnil]
    · rw [← hb]
      refine ⟨rfl, rfl, rfl, hcs, ?_, ?_, fun h => ?_⟩
      · rw [htook']
        exact howe
      · dsimp only
        rw [he', herr]
        simp only [howe.mem_iff, he, Bool.false_eq_true, false_or]
      · dsimp only
        rw [htot', (htot (he'.symm.trans h)).2, sumRes_perm howe]

section Windows

variable {head : List MmapNode} {r : Req} (w : Window head r) (op : Opcode)

/-- A batch from position `done` on: it carried out the SQEs of the next `bytes` bytes
and reaped their CQEs, all of them and no others. -/
structure BatchDone (s : Sched) (ring : Ring) (done : Nat) (total : Int) (res : BatchResult) :
    Prop where
  exhausted : res.exhausted = false
  ring : res.ring = ring
  pos : 0 < res.bytes
  bound : done + res.bytes ≤ w.n
  took : res.took.Perm res.log
  source : ∃ qs, res.log = s.complete qs
  tiles : ∃ qs, Tiles Sqe.len (SqeAt w op) (w.b + done) (w.b + done + res.bytes) qs ∧
    (res.log.map Cqe.sqe).Perm qs
  error : res.error = true ↔ ∃ c ∈ res.log, c.res < 0
  total : res.error = false → res.total = total + sumRes res.log

theorem uringBatch_window {s : Sched} (hs : Fair s) {ring : Ring} (hidle : Ring.Idle ring)
    {done : Nat} (hdone : done < w.n) (total : Int) :
    ∃ res, uringBatch head op r s done total ring = some res ∧
      BatchDone w op s ring done total res := by
  obtain ⟨uringInit, sq, owed⟩ := ring
  obtain ⟨rfl, rfl⟩ : sq = [] ∧ owed = [] := hidle
  obtain ⟨res, hres, hran⟩ :=
    uringBatch_ran head op r hs.accepting ⟨uringInit, [], []⟩ rfl done total
  obtain ⟨new, hfill, hne⟩ := fillBatch_window w op done 0 0 [] (by omega) (by simp)
  have hok := hfill.alone (Nat.le_refl 0)
  have hnew := hne hok (by decide) (by omega)
  have hlen : new.length ≠ 0 := fun h => hnew (List.eq_nil_of_length_eq_zero h)
  have htiles := hfill.tiles hok
  -- the whole queue is accepted
  have hsq : (fillBatch head op r done 0 0 []).sq = new := hfill.queued
  have htaken : taken s (fillBatch head op r done 0 0 []) = new.length := by
    unfold taken
    rw [if_neg (by simp [hok, hfill.count, hlen]), hs.submit, hsq, Int.toNat_natCast]
  have hlog := hran.log
  have hring := hran.ring
  rw [htaken, hsq, List.take_length] at hlog
  rw [htaken, hsq, List.drop_length] at hring
  have hlt := tiles_lt htiles hnew
  have hbytes : res.bytes = (fillBatch head op r done 0 0 []).bytes := hran.bytes
  have herror := hran.error
  rw [hok] at herror
  refine ⟨res, hres, ?_, hring, ?_, ?_, hran.took, ⟨new, hlog⟩, ⟨new, ?_, ?_⟩, ?_, hran.total⟩
  · rw [hran.exhausted, ← hfill.error, hok]
  · omega
  · rw [hbytes]
    exact hfill.bound
  · rw [hbytes]
    exact htiles
  · rw [hlog]
    exact hs.complete new
  · simpa using herror

/-- A call from position `done` on: it carried out SQEs that cut the window from there,
to its end or to where a batch had a failure, and reaped their CQEs. -/
structure CallDone (batch : Nat → Sched) (ring : Ring) (done : Nat) (total : Int)
    (res : IoResult) : Prop where
  ring : res.ring = ring
  took : res.took.Perm res.log
  source : ∀ c ∈ res.log, ∃ i qs, c ∈ (batch i).complete qs
  tiles : ∃ m qs, m ≤ w.n ∧ Tiles Sqe.len (SqeAt w op) (w.b + done) (w.b + m) qs ∧
    (res.log.map Cqe.sqe).Perm qs ∧ ((∀ c ∈ res.log, 0 ≤ c.res) → m = w.n)
  failed : (∃ c ∈ res.log, c.res < 0) → res.ret = -1
  total : (∀ c ∈ res.log, 0 ≤ c.res) → res.ret = total + sumRes res.log

section AfterBatch

variable {w op} {batch : Nat → Sched} {i : Nat} {ring : Ring} {done : Nat} {total : Int}
  {b : BatchResult} (hdn : BatchDone w op (batch i) ring done total b)
include hdn

theorem BatchDone.sourced : ∀ c ∈ b.log, ∃ i qs, c ∈ (batch i).complete qs := by
  obtain ⟨qs, hlog⟩ := hdn.source
  exact fun c hc => ⟨i, qs, hlog ▸ hc⟩

/-- A batch with a failure ends the call. -/
theorem BatchDone.stopped (he : b.error = true) :
    CallDone w op batch ring done total ⟨-1, b.ring, b.log, b.took⟩ := by
  obtain ⟨qs, hqs, hperm⟩ := hdn.tiles
  have hnot : ¬ ∀ c ∈ b.log, 0 ≤ c.res := by
    obtain ⟨c, hc, hneg⟩ := hdn.error.mp he
    intro hall
    exact absurd (hall c hc) (Int.not_le.mpr hneg)
  refine ⟨hdn.ring, hdn.took, hdn.sourced, ⟨done + b.bytes, qs, hdn.bound, ?_, hperm,
    fun h => absurd h hnot⟩, fun _ => rfl, fun h => absurd h hnot⟩
  rw [← Nat.add_assoc]
  exact hqs

/-- A batch without a failure, and the rest of the call. -/
theorem BatchDone.followed (he : b.error = false) {res : IoResult}
    (hcall : CallDone w op batch ring (done + b.bytes) b.total res) :
    CallDone w op batch ring done total
      { res with log := b.log ++ res.log, took := b.took ++ res.took } := by
  obtain ⟨qs, hqs, hperm⟩ := hdn.tiles
  obtain ⟨m, qs', hm', hqs', hperm', hall'⟩ := hcall.tiles
  have hgood : ¬ ∃ c ∈ b.log, c.res < 0 := fun h => by
    rw [hdn.error.mpr h] at he
    cases he
  refine ⟨hcall.ring, hdn.took.append hcall.took, fun c hc => ?_, ⟨m, qs ++ qs', hm', ?_, ?_, ?_⟩,
    ?_, ?_⟩
  · rcases List.mem_append.mp hc with hc | hc
    · exact hdn.sourced c hc
    · exact hcall.source c hc
  · rw [← Nat.add_assoc] at hqs'
    exact tiles_append hqs hqs'
  · simp only [List.map_append]
    exact hperm.append hperm'
  · exact fun h => hall' fun c hc => h c (List.mem_append_right _ hc)
  · rintro ⟨c, hc, hneg⟩
    rcases List.mem_append.mp hc with hc | hc
    · exact absurd ⟨c, hc, hneg⟩ hgood
    · exact hcall.failed ⟨c, hc, hneg⟩
  · intro h
    simp only [sumRes_append]
    rw [hcall.total fun c hc => h c (List.mem_append_right _ hc), hdn.total he]
    ring

end AfterBatch

/-- The outer loop, by induction on what is left of the window. -/
theorem uringLoop_window {batch : Nat → Sched} (hs : ∀ i, Fair (batch i)) {ring : Ring}
    (hidle : Ring.Idle ring) (i : Nat) {done : Nat} (hdone : done ≤ w.n) (total : Int) :
    ∃ res, uringLoop head op r batch i done total ring = some res ∧
      CallDone w op batch ring done total res := by
  have hsize := w.size
  induction hm : w.n - done using Nat.strong_induction_on generalizing i done total with
  | _ m ih =>
    rw [uringLoop]
    by_cases hlt : done < r.size
    swap
    · obtain rfl : done = w.n := by omega
      refine ⟨_, if_neg hlt, rfl, List.Perm.refl _, by simp, ⟨w.n, [], Nat.le_refl _, rfl,
        List.Perm.refl _, fun _ => rfl⟩, by simp, by simp⟩
    rw [if_pos hlt]
    obtain ⟨b, hb, hdn⟩ := uringBatch_window w op (hs i) hidle (by omega : done < w.n) total
    simp only [hb]
    cases he : b.error with
    | true => exact ⟨_, rfl, hdn.stopped he⟩
    | false =>
      have hpos := hdn.pos
      have hbound := hdn.bound
      obtain ⟨res, hres, hcall⟩ := ih (w.n - (done + b.bytes)) (by omega) (i + 1) hdn.bound
        b.total rfl
      refine ⟨_, ?_, hdn.followed he hcall⟩
      rw [hdn.ring]
      simp only [Bool.false_eq_true, ↓reduceIte, Nat.ne_of_gt hpos, hres, Option.map_some]

end Windows

end Fgds.Pipeline
