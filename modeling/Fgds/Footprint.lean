import Fgds.Transfer

/-!
# What a read touches

A call of `fgds_read` carries out the SQEs it queued itself and those it found in the
queue, and leaves the others queued. So a property of SQEs that holds of every piece of
the request, and of everything queued before, holds of all that the call does:

* `Touches`: every SQE made for a part of the request has the property;
* `fgdsRead_footprint`: then so has every operation carried out, and every SQE left.

Nothing is assumed about the window: the request may be refused, at once or half way.
-/

namespace Fgds.Footprint

open Fgds.Lib.CInt Fgds.Lib.Overlay Fgds.Device Fgds.Xfer Fgds.Uring Fgds.ReadWrite Fgds.Storage
open Fgds.Transfer

variable {head : List MmapNode} {op : Opcode} {r : Req} {Q : Sqe → Prop}

/-- `q` transfers the start of the host range `e`. -/
def IsFor (op : Opcode) (e : XferAddr) (q : Sqe) : Prop :=
  q.opcode = op ∧ q.addr = e.targetAddr ∧ q.len ≤ e.nbyte

/-- Every SQE for an entry of a part of the request has the property `Q`. -/
def Touches (head : List MmapNode) (op : Opcode) (r : Req) (Q : Sqe → Prop) : Prop :=
  ∀ (pos n : Nat) (es : List XferAddr), 0 < n → pos + n ≤ r.size →
    fgdsDoXferAddr head r.gpuBuf (s64 (r.bufOffset + pos)) n = some es →
    ∀ e ∈ es, ∀ q, IsFor op e q → Q q

/-! ## The queue -/

theorem prepSqes_footprint {es : List XferAddr} (hes : ∀ e ∈ es, ∀ q, IsFor op e q → Q q)
    {subFOff : Int} {count : Nat} {sq : List Sqe} (hsq : ∀ q ∈ sq, Q q) :
    ∀ q ∈ (prepSqes op r es subFOff count sq).2.2, Q q := by
  induction es generalizing subFOff count sq with
  | nil => exact hsq
  | cons e es ih =>
    rw [prepSqes]
    split
    · exact hsq
    · refine ih (fun e' he' => hes e' (List.mem_cons_of_mem e he')) fun q hq => ?_
      rcases List.mem_append.mp hq with hq | hq
      · exact hsq q hq
      · rw [List.mem_singleton.mp hq]
        refine hes e List.mem_cons_self _ ⟨rfl, rfl, ?_⟩
        simp only [u32]
        omega

theorem fillBatch_footprint (hr : Touches head op r Q) {done count bytes : Nat} {sq : List Sqe}
    (hsq : ∀ q ∈ sq, Q q) : ∀ q ∈ (fillBatch head op r done count bytes sq).sq, Q q := by
  have hpart : ∀ {bytes : Nat} {es : List XferAddr}, done + bytes < r.size →
      fgdsDoXferAddr head r.gpuBuf (s64 (r.bufOffset + done + bytes)) (subSize r (done + bytes)) =
        some es → ∀ e ∈ es, ∀ q, IsFor op e q → Q q := by
    intro bytes es hlt hes
    have hle : done + bytes + subSize r (done + bytes) ≤ r.size := by
      unfold subSize
      split <;> omega
    rw [Int.add_assoc, ← Nat.cast_add] at hes
    exact hr _ _ es (subSize_pos r hlt) hle hes
  fun_induction fillBatch head op r done count bytes sq with
  | case1 => exact hsq
  | case2 => exact hsq
  | case3 _ _ _ hlt _ _ _ _ hes => exact prepSqes_footprint (hpart hlt.2 hes) hsq
  | case4 _ _ _ hlt _ _ _ _ hes _ _ _ ih => exact ih (prepSqes_footprint (hpart hlt.2 hes) hsq)
  | case5 => exact hsq

/-! ## Batches -/

section Kernel

variable {S : Nat} (hQ : ∀ q, Q q → q.opcode = .read)

/-- An operation with the property that read what is available. -/
def Did (Q : Sqe → Prop) (S : Nat) (c : Cqe) : Prop := Q c.sqe ∧ c.res = available S c.sqe

include hQ

/-- What is submitted is carried out, the rest stays queued. -/
theorem submitPhase_footprint {s : Sched} (hs : ∀ qs, ((s.complete qs).map Cqe.sqe).Perm qs)
    (hres : ∀ qs, ∀ c ∈ s.complete qs, c.sqe.opcode = .read → c.res = available S c.sqe)
    {b : Batch} (hb : ∀ q ∈ b.sq, Q q) (owed : List Cqe) :
    (∀ c ∈ (submitPhase s b owed).log, Did Q S c) ∧ ∀ q ∈ (submitPhase s b owed).sq, Q q := by
  unfold submitPhase
  split
  · exact ⟨by simp, hb⟩
  · split
    · exact ⟨by simp, hb⟩
    · dsimp only
      split
      · exact ⟨by simp, hb⟩
      · refine ⟨fun c hc => ?_, fun q hq => hb q (List.mem_of_mem_drop hq)⟩
        have hmem := (hs _).mem_iff.mp (List.mem_map_of_mem hc)
        have hq := hb c.sqe (List.mem_of_mem_take hmem)
        exact ⟨hq, hres _ c hc (hQ _ hq)⟩

theorem uringBatch_footprint (hr : Touches head op r Q) {s : Sched}
    (hs : ∀ qs, ((s.complete qs).map Cqe.sqe).Perm qs)
    (hres : ∀ qs, ∀ c ∈ s.complete qs, c.sqe.opcode = .read → c.res = available S c.sqe)
    {done : Nat} {total : Int} {ring : Ring} (hsq : ∀ q ∈ ring.sq, Q q) {b : BatchResult}
    (h : uringBatch head op r s done total ring = some b) :
    (∀ c ∈ b.log, Did Q S c) ∧ ∀ q ∈ b.ring.sq, Q q := by
  simp only [uringBatch, Option.bind_eq_some_iff, Option.map_eq_some_iff] at h
  obtain ⟨_, _, _, _, rfl⟩ := h
  exact submitPhase_footprint hQ hs hres (fillBatch_footprint hr hsq) ring.owed

theorem uringLoop_footprint (hr : Touches head op r Q) {k : Kernel} (hk : FullReads k S)
    {i done : Nat} {total : Int} {ring : Ring} (hsq : ∀ q ∈ ring.sq, Q q) {res : IoResult}
    (h : uringLoop head op r k.batch i done total ring = some res) :
    (∀ c ∈ res.log, Did Q S c) ∧ ∀ q ∈ res.ring.sq, Q q := by
  have hbatch : ∀ {i done : Nat} {total : Int} {ring : Ring} {b : BatchResult},
      (∀ q ∈ ring.sq, Q q) → uringBatch head op r (k.batch i) done total ring = some b →
      (∀ c ∈ b.log, Did Q S c) ∧ ∀ q ∈ b.ring.sq, Q q :=
    fun hsq hb => uringBatch_footprint hQ hr (hk.batch _).complete (hk.cqe _) hsq hb
  replace h := uringLoop_rounds h
  induction h with
  | finish _ => exact ⟨by simp, hsq⟩
  | fail _ hb _ => exact hbatch hsq hb
  | more _ hb _ _ ih =>
    obtain ⟨hlog, hq⟩ := hbatch hsq hb
    obtain ⟨hlog', hq'⟩ := ih hq
    refine ⟨fun c hc => ?_, hq'⟩
    rcases List.mem_append.mp hc with hc | hc
    · exact hlog c hc
    · exact hlog' c hc

/-! ## Calls -/

omit hQ in
theorem readLoop_footprint {rw : Nat → Sqe → Int}
    (hrw : ∀ i q, q.opcode = .read → rw i q = available S q) {es : List XferAddr}
    (hes : ∀ e ∈ es, ∀ q, IsFor .read e q → Q q) (i : Nat) (nbyteTotal : Int) :
    ∀ c ∈ (readLoop rw r es i nbyteTotal).2, Did Q S c := by
  induction es generalizing i nbyteTotal with
  | nil => simp [readLoop]
  | cons e es ih =>
    intro c hc
    have hfirst : ∀ q : Sqe, IsFor .read e q → Did Q S ⟨q, rw i q⟩ := fun q hq =>
      ⟨hes e List.mem_cons_self q hq, hrw i q hq.1⟩
    simp only [readLoop] at hc
    split at hc
    · rw [List.mem_singleton.mp hc]
      exact hfirst _ ⟨rfl, rfl, Nat.le_refl _⟩
    · rcases List.mem_cons.mp hc with rfl | hc
      · exact hfirst _ ⟨rfl, rfl, Nat.le_refl _⟩
      · exact ih (fun e' he' => hes e' (List.mem_cons_of_mem e he')) _ _ c hc

/-- A read does nothing but what its request and the queue ask for. -/
theorem fgdsRead_footprint (hr : Touches head .read r Q) (hlo : -2 ^ 63 ≤ r.bufOffset)
    (hhi : r.bufOffset < 2 ^ 63) (hpos : 0 < r.size) {k : Kernel} (hk : FullReads k S)
    {ring : Ring} (hsq : ∀ q ∈ ring.sq, Q q) {res : IoResult}
    (h : fgdsRead head k ring r = some res) :
    (∀ c ∈ res.log, Did Q S c) ∧ ∀ q ∈ res.ring.sq, Q q := by
  unfold fgdsRead at h
  split at h
  · obtain rfl := Option.some.inj h
    unfold fgdsReadDirect
    cases hes : fgdsDoXferAddr head r.gpuBuf r.bufOffset r.size with
    | none => exact ⟨by simp, hsq⟩
    | some es =>
      have hoff : s64 (r.bufOffset + (0 : Nat)) = r.bufOffset := by
        rw [s64_eq (by omega) (by omega), Nat.cast_zero, Int.add_zero]
      have hpieces := hr 0 r.size es hpos (by omega) (by rw [hoff, hes])
      exact ⟨readLoop_footprint hk.direct hpieces 0 0, hsq⟩
  · unfold fgdsPipeline at h
    split at h
    · exact uringLoop_footprint hQ hr hk hsq h
    · split at h
      · obtain rfl := Option.some.inj h
        exact ⟨by simp, hsq⟩
      · exact uringLoop_footprint hQ hr hk (by simp) h

omit hQ in
/-- A byte that no operation reaches keeps its value. -/
theorem applyAll_footprint (hQ : ∀ q, Q q → q.opcode = .read) {x : Nat}
    (hx : ∀ q, Q q → ¬ (q.addr ≤ x ∧ x < q.addr + q.len)) {log : List Cqe}
    (h : ∀ c ∈ log, Did Q S c) (w : World) : (w.applyAll log).mem x = w.mem x := by
  rw [applyAll_reads w fun c hc => hQ _ (h c hc).1]
  apply overlayAll_untouched
  intro s hs
  obtain ⟨c, hc, rfl⟩ := List.mem_map.mp hs
  obtain ⟨hq, hres⟩ := h c hc
  rw [readStore, if_neg]
  intro hin
  refine hx _ hq ⟨hin.1, ?_⟩
  simp only [hres, available, Int.toNat_natCast] at hin
  omega

end Kernel

end Fgds.Footprint
