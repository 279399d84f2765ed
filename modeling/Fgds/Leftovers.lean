import Fgds.Transfer

/-!
# What an earlier call left in the ring

A call that ends with an error can leave SQEs in the submission queue, and CQEs that nobody has
reaped. The next call of the pipeline submits the former along with its own, and may reap the
latter in their place.

* `Leftover`: a ring between calls;
* `uringBatch_ok`, `rounds_ok`: what a call without an error carries out and reaps on such a ring;
* `fgds_read_correct_iff`: `fgds_read` does what is expected of it, for every file and every
  completion order, if and only if nothing is left in the ring or the read takes the direct path;
* `fgds_write_read_back_iff`: the same for a write and the read back.
-/

namespace Fgds.Leftovers

open Fgds.Lib.CInt Fgds.Lib.Tiling Fgds.Device Fgds.Uring Fgds.Pipeline Fgds.ReadWrite Fgds.Storage
open Fgds.Transfer

/-- A ring between calls. An SQE that was left in the queue asks for some bytes at an offset that
a file can have; a CQE that was not reaped may be anything. -/
structure Leftover (ring : Ring) : Prop where
  fresh : ring.uringInit = false → Ring.Idle ring
  room : ring.sq.length ≤ fgdsUringQd
  queued : ∀ q ∈ ring.sq, 0 < q.len ∧ q.off + q.len < 2 ^ 63

/-! ## Batches without an error -/

section Batches

variable {head : List MmapNode} {op : Opcode} {r : Req} {s : Sched}

theorem reapLoop_ok {rounds : Nat} {st st' : Reap} (h : reapLoop s rounds st = some st')
    (he : st'.error = false) :
    ∃ cs, st'.took = st.took ++ cs ∧ st.owed = cs ++ st'.owed ∧ cs.length = rounds ∧
      st'.total = st.total + sumRes cs := by
  induction rounds generalizing st with
  | zero =>
    cases h
    exact ⟨[], by simp⟩
  | succ rounds ih =>
    rw [reapLoop] at h
    split at h
    · cases h
      cases he
    · cases ho : st.owed with
      | nil =>
        rw [ho] at h
        cases h
      | cons c owed =>
        rw [ho] at h
        dsimp only at h
        split at h
        · cases h
          cases he
        · obtain ⟨cs, htook, howed, hlen, htot⟩ := ih h
          refine ⟨c :: cs, ?_, ?_, by rw [List.length_cons, hlen], ?_⟩
          · rw [htook, List.append_assoc, List.singleton_append]
          · rw [List.cons_append, ← howed]
          · rw [htot, sumRes_cons, Int.add_assoc]

/-- The error path never takes an error back. -/
theorem drainLoop_error {rounds : Nat} {st st' : Reap} (h : drainLoop s rounds st = some st') :
    st'.error = st.error := by
  induction rounds generalizing st with
  | zero =>
    cases h
    rfl
  | succ rounds ih =>
    rw [drainLoop] at h
    split at h
    · cases h
      rfl
    · cases ho : st.owed with
      | nil =>
        rw [ho] at h
        cases h
      | cons c owed =>
        rw [ho] at h
        dsimp only at h
        have herr := ih h
        exact herr

theorem cleanup_error {submitted : Nat} {st st' : Reap} (h : cleanup s submitted st = some st') :
    st'.error = st.error := by
  unfold cleanup at h
  have herr := drainLoop_error h
  exact herr

/-- A batch that reports no error, on any ring, with a kernel that takes everything: the whole
queue is carried out, and as many CQEs are reaped as SQEs were submitted. -/
theorem uringBatch_ok (hs : Fair s) {done : Nat} {total : Int} {ring : Ring} {b : BatchResult}
    (h : uringBatch head op r s done total ring = some b) (hok : b.error = false)
    (hcount : (fillBatch head op r done 0 0 ring.sq).sqeCount ≠ 0) :
    (fillBatch head op r done 0 0 ring.sq).error = false ∧
      b.bytes = (fillBatch head op r done 0 0 ring.sq).bytes ∧ b.ring.sq = [] ∧
      b.log = s.complete (fillBatch head op r done 0 0 ring.sq).sq ∧
      b.took ++ b.ring.owed = s.merge ring.owed b.log ∧ b.took.length = b.log.length ∧
      b.total = total + sumRes b.took := by
  obtain ⟨fb, hfb⟩ : ∃ fb, fb = fillBatch head op r done 0 0 ring.sq := ⟨_, rfl⟩
  rw [← hfb] at hcount ⊢
  unfold uringBatch at h
  rw [← hfb] at h
  dsimp only at h
  cases he : fb.error with
  | true =>
    simp only [submitPhase, he, ↓reduceIte, Option.bind_some, Nat.lt_irrefl, and_false,
      Option.map_some, Option.some.injEq] at h
    subst h
    cases hok
  | false =>
    have hlen : (s.complete fb.sq).length = fb.sq.length := by
      rw [← List.length_map (f := Cqe.sqe), (hs.complete fb.sq).length_eq]
    have hsub : submitPhase s fb ring.owed = ⟨false, fb.sq.length, [],
        s.merge ring.owed (s.complete fb.sq), s.complete fb.sq⟩ := by
      simp [submitPhase, he, hcount, hs.submit]
    rw [hsub] at h
    simp only [Bool.false_eq_true, ↓reduceIte, Option.bind_eq_some_iff, Option.map_eq_some_iff] at h
    obtain ⟨st, hst, st', hst', rfl⟩ := h
    dsimp only at hok ⊢
    have herr : st.error = false := by
      cases hse : st.error with
      | false => rfl
      | true =>
        rw [hse] at hst'
        split at hst'
        · rw [cleanup_error hst', hse] at hok
          cases hok
        · cases hst'
          rw [hse] at hok
          cases hok
    rw [herr, if_neg (by simp)] at hst'
    cases hst'
    obtain ⟨cs, htook, howed, hcs, htot⟩ := reapLoop_ok hst herr
    rw [List.nil_append] at htook
    refine ⟨rfl, rfl, rfl, rfl, ?_, ?_, ?_⟩
    · rw [htook]
      exact howed.symm
    · rw [htook, hcs, hlen]
    · rw [htook, htot]

end Batches

/-! ## Calls without an error -/

section Calls

variable {head : List MmapNode} {r : Req} (w : Window head r) {batch : Nat → Sched}

/-- What a call that returns a number of bytes has done on a ring that need not be idle: it has
carried out what it found in the queue and the pieces of the window, and it returns the sum of
what it reaped. -/
structure CallOk (op : Opcode) (batch : Nat → Sched) (done : Nat) (total : Int) (ring : Ring)
    (res : IoResult) : Prop where
  ret : res.ret = total + sumRes res.took
  source : ∀ c ∈ res.log, ∃ i qs, c ∈ (batch i).complete qs
  pieces : ∃ new, Tiles Sqe.len (SqeAt w op) (w.b + done) (w.b + w.n) new ∧
    (res.log.map Cqe.sqe).Perm (ring.sq ++ new)

variable {op : Opcode}

/-- What the first batch of a call, or a later one, does if the call goes on after it. -/
theorem uringBatch_window_ok {s : Sched} (hs : Fair s) {done : Nat} (hdone : done < w.n)
    {total : Int} {ring : Ring} (hroom : ring.sq.length ≤ fgdsUringQd) {b : BatchResult}
    (h : uringBatch head op r s done total ring = some b) (hok : b.error = false) :
    b.ring.sq = [] ∧ done + b.bytes ≤ w.n ∧ (∃ qs, b.log = s.complete qs) ∧
      b.took ++ b.ring.owed = s.merge ring.owed b.log ∧ b.took.length = b.log.length ∧
      b.total = total + sumRes b.took ∧
      ∃ new, new ≠ [] ∧ Tiles Sqe.len (SqeAt w op) (w.b + done) (w.b + done + b.bytes) new ∧
        (b.log.map Cqe.sqe).Perm (ring.sq ++ new) := by
  obtain ⟨new, hfill, hne⟩ := fillBatch_window w op done 0 0 ring.sq (by omega) hroom
  cases he : (fillBatch head op r done 0 0 ring.sq).error with
  | true =>
    -- a full ring ends the call
    simp only [uringBatch, submitPhase, he, ↓reduceIte, Option.bind_some, Nat.lt_irrefl, and_false,
      Option.map_some, Option.some.injEq] at h
    subst h
    cases hok
  | false =>
    have hnew := hne he (by decide) (by omega)
    have hcount : (fillBatch head op r done 0 0 ring.sq).sqeCount ≠ 0 := by
      rw [hfill.count, Nat.zero_add]
      exact fun h0 => hnew (List.eq_nil_of_length_eq_zero h0)
    obtain ⟨_, hbytes, hsq, hlog, htook, hlen, htot⟩ := uringBatch_ok hs h hok hcount
    refine ⟨hsq, hbytes ▸ hfill.bound, ⟨_, hlog⟩, htook, hlen, htot, new, hnew, ?_, ?_⟩
    · rw [hbytes]
      exact hfill.tiles he
    · rw [hlog, ← hfill.queued]
      exact hs.complete _

/-- A call that does not end with an error, by induction on its rounds. Only the first round can
find something in the queue. -/
theorem rounds_ok (hs : ∀ i, Fair (batch i)) {i done : Nat} {total : Int} {ring : Ring}
    {res : IoResult} (h : Rounds head op r batch i done total ring res) (hret : 0 ≤ res.ret)
    (hdone : done ≤ w.n) (hroom : ring.sq.length ≤ fgdsUringQd)
    (hsq : done < w.n ∨ ring.sq = []) : CallOk w op batch done total ring res := by
  have hsize := w.size
  induction h with
  | finish hge =>
    have hnil := hsq.resolve_left (by omega)
    refine ⟨by simp, by simp, [], ?_, by simp [hnil]⟩
    rw [tiles_nil]
    omega
  | fail hlt hb he => cases hret
  | @more i done total ring b rest hlt hb he _ ih =>
    obtain ⟨hnil, hbound, ⟨qs, hlog⟩, _, _, htot, new, _, htiles, hperm⟩ :=
      uringBatch_window_ok w (hs i) (by omega) hroom hb he
    obtain ⟨hret', hsource, new', htiles', hperm'⟩ :=
      ih hret hbound (by rw [hnil]; exact Nat.zero_le _) (.inr hnil)
    refine ⟨?_, fun c hc => ?_, new ++ new', ?_, ?_⟩
    · rw [sumRes_append]
      rw [hret', htot]
      omega
    · rcases List.mem_append.mp hc with hc | hc
      · exact ⟨i, qs, hlog ▸ hc⟩
      · exact hsource c hc
    · rw [← Nat.add_assoc] at htiles'
      exact tiles_append htiles htiles'
    · rw [hnil, List.nil_append] at hperm'
      rw [List.map_append, ← List.append_assoc]
      exact hperm.append hperm'

include w

/-- If the kernel puts the new CQEs first, the call reaps its own and no others. -/
theorem rounds_new_first (hs : ∀ i, Fair (batch i))
    (hmerge : ∀ i a b, (batch i).merge a b = b ++ a) {i done : Nat} {total : Int} {ring : Ring}
    {res : IoResult} (h : Rounds head op r batch i done total ring res) (hret : 0 ≤ res.ret)
    (hroom : ring.sq.length ≤ fgdsUringQd) : res.took = res.log := by
  have hsize := w.size
  induction h with
  | finish hge => rfl
  | fail hlt hb he => cases hret
  | @more i done total ring b rest hlt hb he _ ih =>
    obtain ⟨hnil, _, _, htook, hlen, _⟩ :=
      uringBatch_window_ok w (hs i) (by omega) hroom hb he
    rw [hmerge] at htook
    dsimp only
    rw [ih hret (by rw [hnil]; exact Nat.zero_le _), (List.append_inj htook hlen).1]

/-- If the kernel puts the oldest CQE that is owed before the new ones, the call reaps that one
and leaves its own last one behind. -/
theorem rounds_old_first (hs : ∀ i, Fair (batch i))
    (hmerge : ∀ i a b, (batch i).merge a b = a.take 1 ++ (b ++ a.drop 1)) {i done : Nat}
    {total : Int} {ring : Ring} {res : IoResult}
    (h : Rounds head op r batch i done total ring res) (hret : 0 ≤ res.ret)
    (hroom : ring.sq.length ≤ fgdsUringQd) {c : Cqe} {rest : List Cqe}
    (howed : ring.owed = c :: rest) : ∃ d, res.took ++ [d] = c :: res.log := by
  have hsize := w.size
  induction h generalizing c rest with
  | finish hge => exact ⟨c, rfl⟩
  | fail hlt hb he => cases hret
  | @more i done total ring b res hlt hb he _ ih =>
    obtain ⟨hnil, _, _, htook, hlen, _, new, hnew, _, hperm⟩ :=
      uringBatch_window_ok w (hs i) (by omega) hroom hb he
    rw [hmerge, howed] at htook
    simp only [List.take_succ_cons, List.take_zero, List.drop_succ_cons, List.drop_zero,
      List.singleton_append] at htook
    -- the last of the new CQEs takes the place of the old one
    have hlog : b.log ≠ [] := by
      intro h0
      rw [h0, List.map_nil] at hperm
      exact hnew (List.append_eq_nil_iff.mp hperm.nil_eq.symm).2
    obtain ⟨d, hd⟩ : ∃ d, b.took ++ [d] = c :: b.log ∧ b.ring.owed = d :: rest := by
      refine ⟨b.log.getLast hlog, ?_⟩
      have hsplit : c :: (b.log ++ rest) =
          (c :: b.log.dropLast) ++ (b.log.getLast hlog :: rest) := by
        conv_lhs => rw [← List.dropLast_append_getLast hlog]
        simp
      rw [hsplit] at htook
      obtain ⟨h1, h2⟩ := List.append_inj htook (by
        have := List.length_pos_of_ne_nil hlog
        simp only [List.length_cons, List.length_dropLast]
        omega)
      refine ⟨?_, h2⟩
      rw [h1, List.cons_append, List.dropLast_append_getLast]
    obtain ⟨e, hrest⟩ := ih hret (by rw [hnil]; exact Nat.zero_le _) hd.2
    refine ⟨e, ?_⟩
    dsimp only
    rw [List.append_assoc, hrest, List.append_cons, hd.1, List.cons_append]

end Calls

/-! ## Two orders of completion -/

/-- A kernel that does what it is asked; `merge` places the CQEs of a batch among those owed. -/
def mergingKernel (S : Nat) (merge : List Cqe → List Cqe → List Cqe) : Kernel :=
  { plainKernel S with batch := fun i => { (plainKernel S).batch i with merge } }

def newFirst (old new : List Cqe) : List Cqe := new ++ old

/-- Only the oldest of the old ones comes before the new ones. -/
def oldFirst (old new : List Cqe) : List Cqe := old.take 1 ++ (new ++ old.drop 1)

theorem newFirst_perm (old new : List Cqe) : (newFirst old new).Perm (old ++ new) :=
  List.perm_append_comm

theorem oldFirst_perm (old new : List Cqe) : (oldFirst old new).Perm (old ++ new) := by
  have hswap : (new ++ old.drop 1).Perm (old.drop 1 ++ new) := List.perm_append_comm
  refine (hswap.append_left (old.take 1)).trans (List.Perm.of_eq ?_)
  rw [← List.append_assoc, List.take_append_drop]

section Kernels

variable {S : Nat} {merge : List Cqe → List Cqe → List Cqe}
  (hmerge : ∀ a b, (merge a b).Perm (a ++ b))
include hmerge

theorem mergingKernel_fair (i : Nat) : Fair ((mergingKernel S merge).batch i) :=
  ⟨fun _ => rfl, plainKernel_complete S i, hmerge, fun _ => rfl⟩

theorem mergingKernel_reads : FullReads (mergingKernel S merge) S :=
  ⟨Int.le_refl _, (plainKernel_reads S).direct, mergingKernel_fair hmerge,
    (plainKernel_reads S).cqe⟩

theorem mergingKernel_writes : FullWrites (mergingKernel S merge) :=
  ⟨Int.le_refl _, (plainKernel_writes S).direct, mergingKernel_fair hmerge,
    (plainKernel_writes S).cqe⟩

end Kernels

/-- An SQE that was left in the queue is carried out, and counts for at least one byte. -/
theorem leftover_res {ring : Ring} (hring : Leftover ring) {S : Nat} (hS : 2 ^ 63 ≤ S + 1)
    {merge : List Cqe → List Cqe → List Cqe} {i : Nat} {qs : List Sqe} {c : Cqe}
    (hc : c ∈ ((mergingKernel S merge).batch i).complete qs) (hq : c.sqe ∈ ring.sq) :
    0 < c.res := by
  obtain ⟨hlen, hoff⟩ := hring.queued _ hq
  obtain ⟨q, _, rfl⟩ := List.mem_map.mp hc
  dsimp only at hlen hoff ⊢
  split
  · rw [available]
    omega
  · omega

theorem sumRes_pos {cs : List Cqe} (hne : cs ≠ []) (h : ∀ c ∈ cs, 0 < c.res) : 0 < sumRes cs := by
  induction cs with
  | nil => exact absurd rfl hne
  | cons c cs ih =>
    have hc := h c List.mem_cons_self
    rw [sumRes_cons]
    cases cs with
    | nil => simpa using hc
    | cons d ds =>
      have := ih (by simp) fun e he => h e (List.mem_cons_of_mem c he)
      omega

section Wrong

variable {head : List MmapNode} {r : Req} (w : Window head r) {ring : Ring}
  (hring : Leftover ring)
include hring

/-- The pipeline runs on the ring as it is. -/
theorem fgdsPipeline_leftover (hne : ¬ Ring.Idle ring) (op : Opcode) (k : Kernel) :
    fgdsPipeline head op k ring r = uringLoop head op r k.batch 0 0 0 ring := by
  cases hinit : ring.uringInit with
  | true => rw [fgdsPipeline, if_pos hinit]
  | false => exact absurd (hring.fresh hinit) hne

/-- With SQEs in the queue, a call that returns a number of bytes returns more than the pieces
of its window transferred. -/
theorem queue_counted (hsq : ring.sq ≠ []) {S : Nat} (hS : 2 ^ 63 ≤ S + 1) (op : Opcode)
    (hn : 0 < w.n) {res : IoResult}
    (h : fgdsPipeline head op (mergingKernel S newFirst) ring r = some res) (hret : 0 ≤ res.ret) :
    ∃ cs, Tiles (fun c => c.sqe.len) (fun p c => SqeAt w op p c.sqe) w.b (w.b + w.n) cs ∧
      (∀ c ∈ cs, ∃ i qs, c ∈ ((mergingKernel S newFirst).batch i).complete qs) ∧
      sumRes cs < res.ret := by
  rw [fgdsPipeline_leftover hring fun hidle => hsq hidle.1] at h
  have hfair := mergingKernel_fair (S := S) newFirst_perm
  have hrounds := uringLoop_rounds h
  obtain ⟨htotal, hsource, new, htiles, hperm⟩ :=
    rounds_ok w hfair hrounds hret (Nat.zero_le _) hring.room (.inl hn)
  rw [rounds_new_first w hfair (fun _ _ _ => rfl) hrounds hret hring.room] at htotal
  -- the log is what was left, and the pieces
  obtain ⟨all, hall, hmap⟩ := exists_perm_of_map_perm hperm
  obtain ⟨old, cs, rfl, hold, rfl⟩ := List.map_eq_append_iff.mp hmap
  have hfrom : ∀ c ∈ old ++ cs, ∃ i qs, c ∈ ((mergingKernel S newFirst).batch i).complete qs :=
    fun c hc => hsource c (hall.mem_iff.mp hc)
  refine ⟨cs, ?_, fun c hc => hfrom c (List.mem_append_right _ hc), ?_⟩
  · rw [Nat.add_zero, tiles_map] at htiles
    exact htiles
  · have hpos : 0 < sumRes old := by
      refine sumRes_pos (fun h0 => hsq (by rw [← hold, h0]; rfl)) fun c hc => ?_
      obtain ⟨i, qs, hmem⟩ := hfrom c (List.mem_append_left _ hc)
      exact leftover_res hring hS hmem (hold ▸ List.mem_map_of_mem hc)
    rw [htotal, ← sumRes_perm hall, sumRes_append]
    omega

variable {f : Nat} (hfo : r.fOffset = f) (hf : f < 2 ^ 63)
include hfo hf

/-- A read with SQEs in the queue returns too much, or fails. -/
theorem read_queue_wrong (hsq : ring.sq ≠ []) {S : Nat} (hS : 2 ^ 63 ≤ S + 1)
    (hlarge : fgdsUringReadThresh ≤ w.n) {res : IoResult}
    (h : fgdsRead head (mergingKernel S newFirst) ring r = some res) :
    res.ret ≠ (min w.n (S - f) : Nat) := by
  intro hret
  have hnbyte := w.nbyte
  rw [fgdsRead, if_neg (by omega)] at h
  obtain ⟨cs, ht, hsource, hlt⟩ := queue_counted w hring hsq hS .read
    (Nat.lt_of_lt_of_le (by decide) hlarge) h (by omega)
  have havail : ∀ c ∈ cs, c.res = available S c.sqe := by
    intro c hc
    obtain ⟨i, qs, hmem⟩ := hsource c hc
    obtain ⟨p, _, _, _, hat⟩ := tiles_mem ht hc
    exact (mergingKernel_reads newFirst_perm).cqe i qs c hmem hat.opcode
  have hsum := sumRes_reads (readAt_of_sqeAt w hfo hf ht havail) (Nat.le_refl _)
  simp only [Nat.sub_self, Nat.zero_min, Nat.add_sub_cancel_left] at hsum
  omega

omit hfo hf in
/-- A pipelined write with SQEs in the queue returns too much, or fails. -/
theorem write_queue_wrong (hsq : ring.sq ≠ []) {S : Nat} (hS : 2 ^ 63 ≤ S + 1)
    (hlarge : fgdsUringWriteThresh ≤ w.n) {res : IoResult}
    (h : fgdsWrite head (mergingKernel S newFirst) ring r = some res) : res.ret ≠ w.n := by
  intro hret
  have hnbyte := w.nbyte
  rw [fgdsWrite, if_neg (by omega)] at h
  obtain ⟨cs, ht, hsource, hlt⟩ := queue_counted w hring hsq hS .write
    (Nat.lt_of_lt_of_le (by decide) hlarge) h (by omega)
  have hfull : ∀ c ∈ cs, c.res = c.sqe.len := by
    intro c hc
    obtain ⟨i, qs, hmem⟩ := hsource c hc
    obtain ⟨p, _, _, _, hat⟩ := tiles_mem ht hc
    exact (mergingKernel_writes newFirst_perm).cqe i qs c hmem hat.opcode
  have hsum := sumRes_full ht hfull
  push_cast at hsum
  omega

/-- With an empty queue and a CQE owed, a read that returns the right number has counted the old
CQE for its own last one: the two have the same result. -/
theorem read_owed_counted (hsq : ring.sq = []) {c : Cqe} {rest : List Cqe}
    (howed : ring.owed = c :: rest) {S : Nat} (hlarge : fgdsUringReadThresh ≤ w.n) {res : IoResult}
    (h : fgdsRead head (mergingKernel S oldFirst) ring r = some res)
    (hret : res.ret = (min w.n (S - f) : Nat)) :
    ∃ p len, w.b ≤ p ∧ p + len ≤ w.b + w.n ∧ 0 < len ∧
      c.res = (min len (S - (f + (p - w.b))) : Nat) := by
  have hnbyte := w.nbyte
  have hn : 0 < w.n := Nat.lt_of_lt_of_le (by decide) hlarge
  have hne : ¬ Ring.Idle ring := fun hidle => by
    rw [hidle.2] at howed
    cases howed
  rw [fgdsRead, if_neg (by omega), fgdsPipeline_leftover hring hne] at h
  have hfair := mergingKernel_fair (S := S) oldFirst_perm
  have hrounds := uringLoop_rounds h
  obtain ⟨htotal, hsource, new, htiles, hperm⟩ :=
    rounds_ok w hfair hrounds (by omega) (Nat.zero_le _) hring.room (.inl hn)
  obtain ⟨d, htook⟩ := rounds_old_first w hfair (fun _ _ _ => rfl) hrounds (by omega) hring.room
    howed
  rw [hsq, List.nil_append] at hperm
  obtain ⟨cs, hcs, rfl⟩ := exists_perm_of_map_perm hperm
  rw [Nat.add_zero, tiles_map] at htiles
  have havail : ∀ x ∈ cs, x.res = available S x.sqe := by
    intro x hx
    obtain ⟨i, qs, hmem⟩ := hsource x (hcs.mem_iff.mp hx)
    obtain ⟨p, _, _, _, hat⟩ := tiles_mem htiles hx
    exact (mergingKernel_reads oldFirst_perm).cqe i qs x hmem hat.opcode
  have hreads := readAt_of_sqeAt w hfo hf htiles havail
  have hsum := sumRes_reads hreads (Nat.le_refl _)
  simp only [Nat.sub_self, Nat.zero_min, Nat.add_sub_cancel_left] at hsum
  -- what was reaped and the CQE left behind are the old one and the log
  have hbalance : sumRes res.took + d.res = c.res + sumRes cs := by
    have hall := congrArg sumRes htook
    rw [sumRes_append, sumRes_cons, sumRes_cons, sumRes_nil, Int.add_zero] at hall
    rw [hall, sumRes_perm hcs]
  have hd : d ∈ cs := by
    have hlog : res.log ≠ [] := by
      intro h0
      rw [h0] at hcs
      rw [hcs.eq_nil, tiles_nil] at htiles
      omega
    rw [hcs.mem_iff]
    have hlast := congrArg List.getLast? htook
    rw [List.getLast?_append, List.getLast?_singleton, Option.some_or,
      List.getLast?_cons_of_ne_nil hlog] at hlast
    exact List.mem_of_getLast? hlast.symm
  obtain ⟨p, hp, hend, hpos, hat⟩ := tiles_mem hreads hd
  refine ⟨p, d.sqe.len, hp, hend, hpos, ?_⟩
  have hres := hat.res
  omega

end Wrong

/-! ## Reads -/

section Reads

variable (dev : OpenDevice) {nd : MmapNode} (fd : Int) (owner : Nat) {b n f : Nat}

/-- A large read on a ring that is not idle goes wrong for some file and some order of the
completions: if SQEs are queued, with a file that has bytes for them; if a CQE is owed, with an
empty file or with one that has all the bytes of the window. -/
theorem read_goes_wrong (hnd : nd ∈ dev.head) (hin : b + n ≤ nd.length) (hf : f < 2 ^ 63)
    {ring : Ring} (hring : Leftover ring) (hne : ¬ Ring.Idle ring)
    (hlarge : fgdsUringReadThresh ≤ n) :
    ∃ w k, FullReads k (w.files fd).size ∧ ¬ ReadsWindow fd owner dev.head ring nd b n f w k := by
  have hpos : 0 < n := Nat.lt_of_lt_of_le (by decide) hlarge
  by_cases hsq : ring.sq = []
  swap
  · refine ⟨plainWorld (2 ^ 63 - 1), mergingKernel (2 ^ 63 - 1) newFirst,
      mergingKernel_reads newFirst_perm, ?_⟩
    rintro ⟨res, hres, hret, _⟩
    exact read_queue_wrong (baseWindow dev fd owner f hnd hin) hring rfl hf hsq (by decide) hlarge
      hres hret
  cases howed : ring.owed with
  | nil => exact absurd ⟨hsq, howed⟩ hne
  | cons c rest =>
    by_contra hall
    push Not at hall
    have hcount : ∀ S, ∃ p len, b ≤ p ∧ p + len ≤ b + n ∧ 0 < len ∧
        c.res = (min len (S - (f + (p - b))) : Nat) := by
      intro S
      obtain ⟨res, hres, hret, _⟩ :=
        hall (plainWorld S) (mergingKernel S oldFirst) (mergingKernel_reads oldFirst_perm)
      exact read_owed_counted (baseWindow dev fd owner f hnd hin) hring rfl hf hsq howed hlarge
        hres hret
    obtain ⟨p, len, _, _, _, hempty⟩ := hcount 0
    obtain ⟨p', len', hp', hend', hlen', hfull⟩ := hcount (f + n)
    omega

/-- **Reading.** `fgds_read` on the base of a region and a window inside it does what is expected
of it, for every file, every content of the memory and every completion order, if and only if
nothing is left in the ring or the read is below the threshold of the pipeline. -/
theorem fgds_read_correct_iff (hnd : nd ∈ dev.head) (hn : 1 ≤ n) (hin : b + n ≤ nd.length)
    (hf : f < 2 ^ 63) {ring : Ring} (hring : Leftover ring) :
    (∀ w k, FullReads k (w.files fd).size → ReadsWindow fd owner dev.head ring nd b n f w k) ↔
      Ring.Idle ring ∨ n < fgdsUringReadThresh := by
  constructor
  · intro hall
    by_contra hcond
    push Not at hcond
    obtain ⟨w, k, hk, hwrong⟩ :=
      read_goes_wrong dev fd owner hnd hin hf hring hcond.1 hcond.2
    exact hwrong (hall w k hk)
  · exact fun hcond w k hk => readsWindow_of dev fd owner hnd hn hin hf hk hcond

end Reads

/-! ## Round trips -/

section RoundTrip

variable (dev : OpenDevice) {src dst : MmapNode} (fd : Int) (owner owner' : Nat) {so d n f : Nat}

/-- With SQEs in the queue, a round trip of 512KB or more goes wrong: at the write if that is
pipelined as well, otherwise at the read. -/
theorem roundTrip_goes_wrong (hsrc : src ∈ dev.head) (hdst : dst ∈ dev.head)
    (hso : so + n ≤ src.length) (hd : d + n ≤ dst.length) (hf : f < 2 ^ 63) {ring : Ring}
    (hring : Leftover ring) (hsq : ring.sq ≠ []) (hlarge : fgdsUringReadThresh ≤ n) :
    ¬ RoundTrips fd owner owner' dev.head ring src dst so d n f (plainWorld (2 ^ 63 - 1))
      (mergingKernel (2 ^ 63 - 1) newFirst) := by
  have hpos : 0 < n := Nat.lt_of_lt_of_le (by decide) hlarge
  rintro ⟨res, hres, hret, hback⟩
  by_cases hwrite : fgdsUringWriteThresh ≤ n
  · exact write_queue_wrong (baseWindow dev fd owner f hsrc hso) hring hsq (by decide) hwrite hres
      hret
  have hk : FullWrites (mergingKernel (2 ^ 63 - 1) newFirst) := mergingKernel_writes newFirst_perm
  obtain ⟨hsame, _, ht⟩ :=
    fgdsWriteDirect_window (baseWindow dev fd owner f hsrc hso) rfl hf ring hpos hk.direct
  rw [fgdsWrite, if_pos (by simp only; omega), Option.some.injEq] at hres
  rw [hres] at hsame ht
  have hsize : (((plainWorld (2 ^ 63 - 1)).applyAll res.log).files fd).size =
      max (2 ^ 63 - 1) (f + n) := (writes_effect hpos (List.Perm.refl _) ht _).2.2.1
  obtain ⟨res', hres', hret', _⟩ := hback _ (mergingKernel_reads newFirst_perm)
  rw [hsame] at hres'
  have hall : min n ((((plainWorld (2 ^ 63 - 1)).applyAll res.log).files fd).size - f) = n := by
    rw [hsize]
    omega
  exact read_queue_wrong (baseWindow dev fd owner' f hdst hd) hring rfl hf hsq (by omega) hlarge
    hres' (hret'.trans (congrArg Nat.cast hall.symm))

/-- **Round trip.** A window of one region written to a file and read back into a window of
another is copied, for every file, memory and completion order, if nothing is left in the ring or
both calls take the direct path; and only then, if every CQE of earlier calls was reaped. -/
theorem fgds_write_read_back_iff (hsrc : src ∈ dev.head) (hdst : dst ∈ dev.head) (hne : src ≠ dst)
    (hn : 1 ≤ n) (hso : so + n ≤ src.length) (hd : d + n ≤ dst.length) (hf : f < 2 ^ 63)
    {ring : Ring} (hring : Leftover ring) :
    (Ring.Idle ring ∨ n < fgdsUringReadThresh →
      ∀ w k, FullWrites k → RoundTrips fd owner owner' dev.head ring src dst so d n f w k) ∧
    (ring.owed = [] →
      (∀ w k, FullWrites k → RoundTrips fd owner owner' dev.head ring src dst so d n f w k) →
      Ring.Idle ring ∨ n < fgdsUringReadThresh) := by
  constructor
  · exact fun hcond w k hk =>
      roundTrips_of dev fd owner hsrc hdst hne owner' hn hso hd hf hk hcond
  · intro howed hall
    by_contra hcond
    push Not at hcond
    have hsq : ring.sq ≠ [] := fun hsq => hcond.1 ⟨hsq, howed⟩
    exact roundTrip_goes_wrong dev fd owner owner' hsrc hdst hso hd hf hring hsq hcond.2
      (hall _ _ (mergingKernel_writes newFirst_perm))

end RoundTrip

/-! ## After a refused request -/

/-- 768KB at offset 3.5MB of the first region of `twoRegions`: the last third lies behind it. -/
def beyondEnd : Req := ⟨3, 1048576, 3670016, 786432, 0, 0⟩

/-- The ring with the two sub-I/Os that were queued before the third was refused. -/
def leftRing : Ring :=
  ⟨true, [⟨.read, 3, 4298637312, 262144, 0, 0⟩, ⟨.read, 3, 4298899456, 262144, 262144, 0⟩], []⟩

theorem leftRing_refused :
    (fgdsRead twoRegions.head (plainKernel 8388608) twoRegions.ring beyondEnd).map
      (fun res => (res.ret, res.ring)) = some (-1, leftRing) := by decide +kernel

theorem leftRing_leftover : Leftover leftRing := ⟨by simp [leftRing], by decide, by decide⟩

theorem twoRegions_first : oneSegment 1 4294967296 1048576 4194304 ∈ twoRegions.head :=
  List.mem_cons_self

theorem twoRegions_second : oneSegment 2 8589934592 16777216 4194304 ∈ twoRegions.head :=
  List.mem_cons_of_mem _ List.mem_cons_self

/-- 1MB at offset 4096 of the first region from a file of 600000 bytes, on the idle ring; and
64KB on the ring that the refused request left. -/
theorem fgds_read_correct_both :
    ReadsWindow 3 0 twoRegions.head twoRegions.ring (oneSegment 1 4294967296 1048576 4194304) 4096
        1048576 0 (plainWorld 600000) (plainKernel 600000) ∧
      ReadsWindow 3 1 twoRegions.head leftRing (oneSegment 1 4294967296 1048576 4194304) 0 65536 0
        (plainWorld 600000) (plainKernel 600000) :=
  ⟨(fgds_read_correct_iff twoRegions.toOpenDevice 3 0 twoRegions_first (by decide)
      (by decide : 4096 + 1048576 ≤ _) (by decide)
      ⟨fun _ => twoRegions.idle, by decide, by decide⟩).mpr (.inl twoRegions.idle) _ _
      (plainKernel_reads 600000),
    (fgds_read_correct_iff twoRegions.toOpenDevice 3 1 twoRegions_first (by decide)
      (by decide : 0 + 65536 ≤ _) (by decide) leftRing_leftover).mpr (.inr (by decide)) _ _
      (plainKernel_reads 600000)⟩

/-- After the refused request, a read of 512KB returns 1MB. -/
theorem read_after_refused :
    (fgdsRead twoRegions.head (plainKernel 8388608) twoRegions.ring beyondEnd).map
        (fun res => (res.ret, res.ring)) = some (-1, leftRing) ∧
      FullReads (plainKernel 8388608) ((plainWorld 8388608).files 3).size ∧
      (fgdsRead twoRegions.head (plainKernel 8388608) leftRing
        ⟨3, 1048576, 0, 524288, 0, 1⟩).map IoResult.ret = some 1048576 ∧
      ¬ ReadsWindow 3 1 twoRegions.head leftRing (oneSegment 1 4294967296 1048576 4194304) 0 524288
        0 (plainWorld 8388608) (plainKernel 8388608) := by
  have hread : (fgdsRead twoRegions.head (plainKernel 8388608) leftRing
      ⟨3, 1048576, 0, 524288, 0, 1⟩).map IoResult.ret = some 1048576 := by decide +kernel
  refine ⟨leftRing_refused, plainKernel_reads _, hread, ?_⟩
  rintro ⟨res, hres, hret, _⟩
  change fgdsRead twoRegions.head (plainKernel 8388608) leftRing
    ⟨3, 1048576, 0, 524288, 0, 1⟩ = some res at hres
  rw [hres, Option.map_some, hret] at hread
  exact absurd hread (by decide)

/-- 1MB of the first region to the second on the idle ring: the write is direct, the read
pipelined. And 64KB on the ring that the refused request left. -/
theorem fgds_write_read_back_mixed :
    RoundTrips 3 0 1 twoRegions.head twoRegions.ring (oneSegment 1 4294967296 1048576 4194304)
        (oneSegment 2 8589934592 16777216 4194304) 4096 0 1048576 0 (plainWorld 0)
        (plainKernel 0) ∧
      RoundTrips 3 1 2 twoRegions.head leftRing (oneSegment 1 4294967296 1048576 4194304)
        (oneSegment 2 8589934592 16777216 4194304) 0 4096 65536 0 (plainWorld 0)
        (plainKernel 0) :=
  ⟨(fgds_write_read_back_iff twoRegions.toOpenDevice 3 0 1 twoRegions_first twoRegions_second
      (by decide) (by decide) (by decide : 4096 + 1048576 ≤ _) (by decide : 0 + _ ≤ _) (by decide)
      ⟨fun _ => twoRegions.idle, by decide, by decide⟩).1 (.inl twoRegions.idle) _ _
      (plainKernel_writes 0),
    (fgds_write_read_back_iff twoRegions.toOpenDevice 3 1 2 twoRegions_first twoRegions_second
      (by decide) (by decide) (by decide : 0 + 65536 ≤ _) (by decide : 4096 + _ ≤ _) (by decide)
      leftRing_leftover).1 (.inr (by decide)) _ _ (plainKernel_writes 0)⟩

/-- After the refused request, 512KB are written and the read back returns 1MB. -/
theorem round_trip_after_refused :
    (fgdsRead twoRegions.head (plainKernel 8388608) twoRegions.ring beyondEnd).map
        (fun res => (res.ret, res.ring)) = some (-1, leftRing) ∧
      FullWrites (plainKernel 8388608) ∧
      (fgdsRead twoRegions.head (plainKernel 8388608) leftRing
        ⟨3, 16777216, 0, 524288, 0, 2⟩).map IoResult.ret = some 1048576 ∧
      ¬ RoundTrips 3 1 2 twoRegions.head leftRing (oneSegment 1 4294967296 1048576 4194304)
        (oneSegment 2 8589934592 16777216 4194304) 0 0 524288 0 (plainWorld 8388608)
        (plainKernel 8388608) := by
  have hread : (fgdsRead twoRegions.head (plainKernel 8388608) leftRing
      ⟨3, 16777216, 0, 524288, 0, 2⟩).map IoResult.ret = some 1048576 := by decide +kernel
  refine ⟨leftRing_refused, plainKernel_writes _, hread, ?_⟩
  rintro ⟨res, hres, _, hback⟩
  have hwrite : (fgdsWrite twoRegions.head (plainKernel 8388608) leftRing
      ⟨3, 1048576, 0, 524288, 0, 1⟩).map (fun res => (res.ring, res.log)) =
      some (leftRing, [⟨⟨.write, 3, 4294967296, 524288, 0, 1⟩, 524288⟩]) := by decide +kernel
  change fgdsWrite twoRegions.head (plainKernel 8388608) leftRing
    ⟨3, 1048576, 0, 524288, 0, 1⟩ = some res at hres
  rw [hres, Option.map_some, Option.some.injEq, Prod.mk.injEq] at hwrite
  obtain ⟨hring, hlog⟩ := hwrite
  obtain ⟨res', hres', hret', _⟩ := hback (plainKernel 8388608) (by
    rw [hlog]
    exact plainKernel_reads _)
  change fgdsRead twoRegions.head (plainKernel 8388608) res.ring
    ⟨3, 16777216, 0, 524288, 0, 2⟩ = some res' at hres'
  rw [hring] at hres'
  rw [hres', Option.map_some, hret'] at hread
  exact absurd hread (by decide)

end Fgds.Leftovers
