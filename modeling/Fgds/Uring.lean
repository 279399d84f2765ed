import Fgds.Xfer

/-!
# The io_uring pipeline of `fgds_read` and `fgds_write`

Large requests are cut into sub-I/Os of 256KB, queued as SQEs in batches of at most
256, submitted, and their CQEs reaped before the next batch. The kernel is a
parameter: what `io_uring_submit` returns, which CQEs a submission yields and in
which order, which waits fail, how many CQEs a peek finds. The two functions share
this code; only the opcode differs.

The lock is held from the first SQE of a batch to its last CQE, so a batch is one
step of the ring.
-/

namespace Fgds.Uring

open Fgds.Lib.CInt Fgds.Device Fgds.Xfer

/-- `FGDS_SUB_IO_SIZE`. -/
def fgdsSubIoSize : Nat := 256 * 1024

/-- `FGDS_URING_QD`: the most SQEs of a batch, and the size of the ring. -/
def fgdsUringQd : Nat := 256

inductive Opcode where
  | read
  | write
  deriving DecidableEq, Repr

/-- The arguments of a call. `owner` is not part of them: it tells calls apart. -/
structure Req where
  fd : Int
  gpuBuf : Nat
  bufOffset : Int
  nbyte : Int
  fOffset : Int
  owner : Nat
  deriving DecidableEq, Repr

/-- `(size_t)nbyte`. -/
def Req.size (r : Req) : Nat := u64 r.nbyte

/-- One read or write handed to the kernel, with the call it belongs to. The offset is
an unsigned 64-bit field. -/
structure Sqe where
  opcode : Opcode
  fd : Int
  addr : Nat
  len : Nat
  off : Nat
  owner : Nat
  deriving DecidableEq, Repr

structure Cqe where
  sqe : Sqe
  res : Int
  deriving DecidableEq, Repr

/-- The ring of a device: the SQEs prepared and not submitted, and the CQEs that are
still to be reaped, in the order in which they will be seen. -/
structure Ring where
  uringInit : Bool
  sq : List Sqe
  owed : List Cqe
  deriving DecidableEq, Repr

/-- What the kernel does in one batch. `complete` carries out the SQEs it accepted,
`merge` places their CQEs among those already owed. -/
structure Sched where
  submit : Nat → Int
  complete : List Sqe → List Cqe
  merge : List Cqe → List Cqe → List Cqe
  waitFails : Nat → Bool
  peeked : Nat

/-! ## Phase 1: filling the submission queue -/

structure Batch where
  error : Bool
  /-- `io_uring_get_sqe` returned NULL -/
  exhausted : Bool
  sqeCount : Nat
  bytes : Nat
  sq : List Sqe

section Fill

variable (head : List MmapNode) (op : Opcode) (r : Req)

/-- One SQE for each entry of the segment list; stops when the ring is full. -/
def prepSqes : List XferAddr → Int → Nat → List Sqe → Bool × Nat × List Sqe
  | [], _, sqeCount, sq => (false, sqeCount, sq)
  | e :: es, subFOff, sqeCount, sq =>
    if sq.length ≥ fgdsUringQd then (true, sqeCount, sq)
    else
      prepSqes es (s64 (subFOff + s64 e.nbyte)) (sqeCount + 1)
        (sq ++ [{ opcode := op, fd := r.fd, addr := e.targetAddr, len := u32 e.nbyte,
                  off := u64 subFOff, owner := r.owner }])

/-- The size of the sub-I/O at position `pos` of the request. -/
def subSize (pos : Nat) : Nat :=
  if pos + fgdsSubIoSize > r.size then r.size - pos else fgdsSubIoSize

theorem subSize_pos {pos : Nat} (h : pos < r.size) : 0 < subSize r pos := by
  unfold subSize
  split
  · omega
  · decide

/-- The filling loop. `done + batch_bytes` never exceeds the size, so the sums in
`size_t` do not wrap. -/
def fillBatch (done sqeCount batchBytes : Nat) (sq : List Sqe) : Batch :=
  if sqeCount < fgdsUringQd ∧ done + batchBytes < r.size then
    let size := subSize r (done + batchBytes)
    let subBufOff := s64 (r.bufOffset + done + batchBytes)
    let subFOff := s64 (r.fOffset + done + batchBytes)
    match fgdsDoXferAddr head r.gpuBuf subBufOff size with
    | none => ⟨true, false, sqeCount, batchBytes, sq⟩
    | some xfer =>
      if sqeCount + xfer.length > fgdsUringQd then ⟨false, false, sqeCount, batchBytes, sq⟩
      else
        let prep := prepSqes op r xfer subFOff sqeCount sq
        if prep.1 then ⟨true, true, prep.2.1, batchBytes, prep.2.2⟩
        else fillBatch done prep.2.1 (batchBytes + size) prep.2.2
  else ⟨false, false, sqeCount, batchBytes, sq⟩
termination_by r.size - (done + batchBytes)
decreasing_by
  rename_i h _ _
  have := subSize_pos r h.2
  omega

end Fill

/-! ## Phase 2: submission -/

structure Submission where
  error : Bool
  submitted : Nat
  sq : List Sqe
  owed : List Cqe
  log : List Cqe

/-- `io_uring_submit` hands over everything in the queue, whoever put it there; the
kernel takes the first `ret` entries. -/
def submitPhase (s : Sched) (b : Batch) (owed : List Cqe) : Submission :=
  if b.error then ⟨true, 0, b.sq, owed, []⟩
  else if b.sqeCount = 0 then ⟨false, 0, b.sq, owed, []⟩
  else
    let ret := s.submit b.sq.length
    if ret < 0 then ⟨true, 0, b.sq, owed, []⟩
    else
      let cqes := s.complete (b.sq.take ret.toNat)
      ⟨false, ret.toNat, b.sq.drop ret.toNat, s.merge owed cqes, cqes⟩

/-! ## Phase 3: reaping -/

/-- `took` collects the CQEs reaped. The running total is a `long` in the source. -/
structure Reap where
  error : Bool
  reaped : Nat
  waits : Nat
  total : Int
  owed : List Cqe
  took : List Cqe

section Reaping

variable (s : Sched)

/-- The `for` loop over the submitted SQEs, for the rounds left; `none` is a wait that
never returns. -/
def reapLoop : Nat → Reap → Option Reap
  | 0, st => some st
  | rounds + 1, st =>
    if s.waitFails st.waits then some { st with error := true, waits := st.waits + 1 }
    else
      match st.owed with
      | [] => none
      | c :: owed =>
        let st' : Reap :=
          { st with reaped := st.reaped + 1, waits := st.waits + 1, owed, took := st.took ++ [c] }
        if c.res < 0 then some { st' with error := true }
        else reapLoop rounds { st' with total := st.total + c.res }

/-- The peek loop of the error path. -/
def peekLoop (st : Reap) : Reap :=
  { st with
    reaped := st.reaped + min s.peeked st.owed.length
    owed := st.owed.drop s.peeked
    took := st.took ++ st.owed.take s.peeked }

/-- The wait loop of the error path, for the `submitted - cqe_reaped` rounds left. -/
def drainLoop : Nat → Reap → Option Reap
  | 0, st => some st
  | rounds + 1, st =>
    if s.waitFails st.waits then some { st with waits := st.waits + 1 }
    else
      match st.owed with
      | [] => none
      | c :: owed =>
        drainLoop rounds
          { st with reaped := st.reaped + 1, waits := st.waits + 1, owed, took := st.took ++ [c] }

/-- The error path: reap what is left of the batch. -/
def cleanup (submitted : Nat) (st : Reap) : Option Reap :=
  let st := peekLoop s st
  drainLoop s (submitted - st.reaped) st

end Reaping

/-! ## Batches and the whole pipeline -/

structure BatchResult where
  error : Bool
  exhausted : Bool
  bytes : Nat
  total : Int
  ring : Ring
  log : List Cqe
  took : List Cqe

/-- One round of the outer loop, under the lock. -/
def uringBatch (head : List MmapNode) (op : Opcode) (r : Req) (s : Sched) (done : Nat)
    (total : Int) (ring : Ring) : Option BatchResult :=
  let b := fillBatch head op r done 0 0 ring.sq
  let sub := submitPhase s b ring.owed
  let start : Reap := ⟨sub.error, 0, 0, total, sub.owed, []⟩
  (if sub.error then some start else reapLoop s sub.submitted start).bind fun st =>
    (if st.error ∧ 0 < sub.submitted then cleanup s sub.submitted st else some st).map fun st =>
      { error := st.error, exhausted := b.exhausted, bytes := b.bytes, total := st.total,
        ring := { ring with sq := sub.sq, owed := st.owed }, log := sub.log, took := st.took }

/-- `log` is what the kernel carried out during the call, `took` what the call reaped. -/
structure IoResult where
  ret : Int
  ring : Ring
  log : List Cqe
  took : List Cqe

/-- The outer loop; `batch i` is the kernel's part in round `i`. A round that queues
nothing and reports no error is repeated forever. -/
def uringLoop (head : List MmapNode) (op : Opcode) (r : Req) (batch : Nat → Sched)
    (i done : Nat) (total : Int) (ring : Ring) : Option IoResult :=
  if done < r.size then
    match uringBatch head op r (batch i) done total ring with
    | none => none
    | some b =>
      if b.error then some ⟨-1, b.ring, b.log, b.took⟩
      else if b.bytes = 0 then none
      else
        (uringLoop head op r batch (i + 1) (done + b.bytes) b.total b.ring).map fun rest =>
          { rest with log := b.log ++ rest.log, took := b.took ++ rest.took }
  else some ⟨total, ring, [], []⟩
termination_by r.size - done

/-- The runs of the outer loop that return: rounds without an error until the whole request is
queued, or until a batch reports an error. -/
inductive Rounds (head : List MmapNode) (op : Opcode) (r : Req) (batch : Nat → Sched) :
    Nat → Nat → Int → Ring → IoResult → Prop
  | finish {i done : Nat} {total : Int} {ring : Ring} (hge : ¬ done < r.size) :
      Rounds head op r batch i done total ring ⟨total, ring, [], []⟩
  | fail {i done : Nat} {total : Int} {ring : Ring} {b : BatchResult} (hlt : done < r.size)
      (hb : uringBatch head op r (batch i) done total ring = some b) (he : b.error = true) :
      Rounds head op r batch i done total ring ⟨-1, b.ring, b.log, b.took⟩
  | more {i done : Nat} {total : Int} {ring : Ring} {b : BatchResult} {rest : IoResult}
      (hlt : done < r.size) (hb : uringBatch head op r (batch i) done total ring = some b)
      (he : b.error = false)
      (hrest : Rounds head op r batch (i + 1) (done + b.bytes) b.total b.ring rest) :
      Rounds head op r batch i done total ring
        { rest with log := b.log ++ rest.log, took := b.took ++ rest.took }

theorem uringLoop_rounds {head : List MmapNode} {op : Opcode} {r : Req} {batch : Nat → Sched}
    {i done : Nat} {total : Int} {ring : Ring} {res : IoResult}
    (h : uringLoop head op r batch i done total ring = some res) :
    Rounds head op r batch i done total ring res := by
  induction hm : r.size - done using Nat.strong_induction_on
    generalizing i done total ring res with
  | _ m ih =>
    rw [uringLoop] at h
    by_cases hlt : done < r.size
    · rw [if_pos hlt] at h
      cases hb : uringBatch head op r (batch i) done total ring with
      | none =>
        rw [hb] at h
        cases h
      | some b =>
        rw [hb] at h
        dsimp only at h
        cases he : b.error with
        | true =>
          rw [he, if_pos rfl] at h
          cases h
          exact .fail hlt hb he
        | false =>
          rw [he, if_neg Bool.false_ne_true] at h
          split at h
          · cases h
          · obtain ⟨rest, hrest, rfl⟩ := Option.map_eq_some_iff.mp h
            exact .more hlt hb he (ih (r.size - (done + b.bytes)) (by omega) hrest rfl)
    · rw [if_neg hlt] at h
      cases h
      exact .finish hlt

/-- What the kernel does during one call: `rw` answers the n-th pread or pwrite. -/
structure Kernel where
  queueInit : Int
  rw : Nat → Sqe → Int
  batch : Nat → Sched

/-- The part of `fgds_read` and `fgds_write` after the threshold test: set up the ring
if this has not been done, then the batches. -/
def fgdsPipeline (head : List MmapNode) (op : Opcode) (k : Kernel) (ring : Ring) (r : Req) :
    Option IoResult :=
  if ring.uringInit then uringLoop head op r k.batch 0 0 0 ring
  else if k.queueInit < 0 then some ⟨-1, ring, [], []⟩
  else uringLoop head op r k.batch 0 0 0 ⟨true, [], []⟩

end Fgds.Uring
