import Fgds.Uring

/-!
# `fgds_read` and `fgds_write`

Requests below a threshold take the direct path: one `pread` or `pwrite` for each
segment of the window. The others go through the pipeline. The two direct paths treat
results differently: a read adds up whatever it gets, a write accepts full lengths
only, and keeps the result in an `int`.
-/

namespace Fgds.ReadWrite

open Fgds.Lib.CInt Fgds.Device Fgds.Xfer Fgds.Uring

/-- `FGDS_URING_READ_THRESH`. -/
def fgdsUringReadThresh : Nat := 512 * 1024

/-- `FGDS_URING_WRITE_THRESH`. -/
def fgdsUringWriteThresh : Nat := 2 * 1024 * 1024

section Direct

variable (rw : Nat → Sqe → Int) (r : Req)

/-- The loop of `fgds_read_direct`; `i` counts the calls of `pread`. -/
def readLoop : List XferAddr → Nat → Int → Int × List Cqe
  | [], _, nbyteTotal => (nbyteTotal, [])
  | e :: es, i, nbyteTotal =>
    let q : Sqe :=
      { opcode := .read, fd := r.fd, addr := e.targetAddr, len := e.nbyte,
        off := u64 (s64 (r.fOffset + nbyteTotal)), owner := r.owner }
    let ret := rw i q
    if ret ≠ s64 e.nbyte ∧ ret < 0 then (-1, [⟨q, ret⟩])
    else
      let rest := readLoop es (i + 1) (nbyteTotal + ret)
      (rest.1, ⟨q, ret⟩ :: rest.2)

/-- The loop of `fgds_write_direct`. -/
def writeLoop : List XferAddr → Nat → Nat → Int × List Cqe
  | [], _, nbyteTotal => (s64 nbyteTotal, [])
  | e :: es, i, nbyteTotal =>
    let q : Sqe :=
      { opcode := .write, fd := r.fd, addr := e.targetAddr, len := e.nbyte,
        off := u64 (s64 (r.fOffset + nbyteTotal)), owner := r.owner }
    let ret := s32 (rw i q)
    if u64 ret ≠ e.nbyte then (-1, [⟨q, rw i q⟩])
    else
      let rest := writeLoop es (i + 1) (u64 (nbyteTotal + e.nbyte))
      (rest.1, ⟨q, rw i q⟩ :: rest.2)

end Direct

/-! ## One round of the direct loops -/

/-- The transfer of a segment, with `nbyteTotal` bytes transferred before. -/
def segmentSqe (op : Opcode) (r : Req) (e : XferAddr) (nbyteTotal : Int) : Sqe :=
  { opcode := op, fd := r.fd, addr := e.targetAddr, len := e.nbyte,
    off := u64 (s64 (r.fOffset + nbyteTotal)), owner := r.owner }

section Rounds

variable {rw : Nat → Sqe → Int} {r : Req} {e : XferAddr} {i : Nat} {x : Int}

theorem readLoop_next (es : List XferAddr) {t : Int} (hx : rw i (segmentSqe .read r e t) = x)
    (hpos : 0 ≤ x) :
    readLoop rw r (e :: es) i t = ((readLoop rw r es (i + 1) (t + x)).1,
      ⟨segmentSqe .read r e t, x⟩ :: (readLoop rw r es (i + 1) (t + x)).2) := by
  subst hx
  exact if_neg fun h => absurd h.2 (Int.not_lt.mpr hpos)

theorem readLoop_stop (es : List XferAddr) {t : Int} (hx : rw i (segmentSqe .read r e t) = x)
    (hsmall : e.nbyte ≤ fgdsMmapSegmentSize) (hneg : x < 0) :
    readLoop rw r (e :: es) i t = (-1, [⟨segmentSqe .read r e t, x⟩]) := by
  subst hx
  have hfull : s64 e.nbyte = e.nbyte := by
    simp only [fgdsMmapSegmentSize] at hsmall
    exact s64_eq (by omega) (by omega)
  refine if_pos ⟨?_, hneg⟩
  change rw i (segmentSqe .read r e t) ≠ s64 e.nbyte
  omega

theorem writeLoop_next (es : List XferAddr) {t : Nat}
    (hx : rw i (segmentSqe .write r e t) = e.nbyte) (hsmall : e.nbyte ≤ fgdsMmapSegmentSize)
    (hend : t + e.nbyte < 2 ^ 64) :
    writeLoop rw r (e :: es) i t = ((writeLoop rw r es (i + 1) (t + e.nbyte)).1,
      ⟨segmentSqe .write r e t, e.nbyte⟩ :: (writeLoop rw r es (i + 1) (t + e.nbyte)).2) := by
  have hret : s32 e.nbyte = e.nbyte := by
    simp only [fgdsMmapSegmentSize] at hsmall
    exact s32_eq (by omega) (by omega)
  have hfull : u64 e.nbyte = e.nbyte := u64_eq rfl (by omega)
  have hnext : u64 (t + e.nbyte) = t + e.nbyte := u64_eq (by omega) hend
  unfold segmentSqe at hx ⊢
  rw [writeLoop]
  dsimp only
  rw [hx, hret, hfull, hnext, if_neg (not_not.mpr rfl)]

theorem writeLoop_stop (es : List XferAddr) {t : Nat}
    (hx : rw i (segmentSqe .write r e t) = x) (hsmall : e.nbyte ≤ fgdsMmapSegmentSize)
    (hlo : -1 ≤ x) (hhi : x ≤ e.nbyte) (hshort : x ≠ e.nbyte) :
    writeLoop rw r (e :: es) i t = (-1, [⟨segmentSqe .write r e t, x⟩]) := by
  simp only [fgdsMmapSegmentSize] at hsmall
  have hret : s32 x = x := s32_eq (by omega) (by omega)
  have hne : u64 x ≠ e.nbyte := by
    unfold u64
    omega
  unfold segmentSqe at hx ⊢
  rw [writeLoop]
  dsimp only
  rw [hx, hret, if_pos hne]

end Rounds

section Calls

variable (head : List MmapNode) (k : Kernel) (ring : Ring) (r : Req)

def fgdsReadDirect : IoResult :=
  match fgdsDoXferAddr head r.gpuBuf r.bufOffset r.size with
  | none => ⟨-1, ring, [], []⟩
  | some es =>
    let res := readLoop k.rw r es 0 0
    ⟨res.1, ring, res.2, []⟩

def fgdsWriteDirect : IoResult :=
  match fgdsDoXferAddr head r.gpuBuf r.bufOffset r.size with
  | none => ⟨-1, ring, [], []⟩
  | some es =>
    let res := writeLoop k.rw r es 0 0
    ⟨res.1, ring, res.2, []⟩

/-- `fgds_read`; `none` is a call that never returns. -/
def fgdsRead : Option IoResult :=
  if r.nbyte < fgdsUringReadThresh then some (fgdsReadDirect head k ring r)
  else fgdsPipeline head .read k ring r

/-- `fgds_write`. -/
def fgdsWrite : Option IoResult :=
  if r.nbyte < fgdsUringWriteThresh then some (fgdsWriteDirect head k ring r)
  else fgdsPipeline head .write k ring r

end Calls

/-! ## Either of the two -/

/-- The threshold of each operation. -/
def threshold : Opcode → Nat
  | .read => fgdsUringReadThresh
  | .write => fgdsUringWriteThresh

/-- `fgds_read` or `fgds_write`. -/
def fgdsCall (op : Opcode) (head : List MmapNode) (k : Kernel) (ring : Ring) (r : Req) :
    Option IoResult :=
  match op with
  | .read => fgdsRead head k ring r
  | .write => fgdsWrite head k ring r

theorem fgdsCall_eq (op : Opcode) (head : List MmapNode) (k : Kernel) (ring : Ring) (r : Req) :
    fgdsCall op head k ring r = if r.nbyte < threshold op then
      some (match op with
        | .read => fgdsReadDirect head k ring r
        | .write => fgdsWriteDirect head k ring r)
      else fgdsPipeline head op k ring r := by
  cases op <;> rfl

/-! ## A kernel that does its work -/

/-- What is available for a read of a file of `S` bytes. -/
def available (S : Nat) (q : Sqe) : Nat := min q.len (S - q.off)

/-- A kernel that does what it is asked and completes each batch last to first. -/
def plainKernel (S : Nat) : Kernel where
  queueInit := 0
  rw _ q := if q.opcode = .read then available S q else q.len
  batch _ :=
    { submit := fun n => n
      complete := fun qs =>
        qs.reverse.map fun q => ⟨q, if q.opcode = .read then available S q else q.len⟩
      merge := fun a b => a ++ b
      waitFails := fun _ => false
      peeked := 0 }

theorem plainKernel_complete (S i : Nat) (qs : List Sqe) :
    ((((plainKernel S).batch i).complete qs).map Cqe.sqe).Perm qs := by
  simp only [plainKernel, List.map_map, Function.comp_def, List.map_id']
  exact List.reverse_perm qs

end Fgds.ReadWrite
