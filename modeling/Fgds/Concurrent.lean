import Fgds.Transfer

/-!
# Concurrent calls on one ring

Any number of threads run pipelined calls on one device. A thread sets the ring up,
runs its batches one by one, each under the lock, and returns; between two batches any
other thread may run. The kernel accepts every queued SQE, yields one CQE for each, in
any order and with any result, and no wait fails.

* `Step`, `Reach`: the interleavings;
* `ThreadOk`, `Inv`: what holds of a thread, and of the system whenever the lock is free;
* `concurrent_calls`: in every reachable state the ring is idle, no SQE was ever
  missing, and each call has reaped exactly the CQEs of its own SQEs and returns what
  they say;
* `call_refines`: the sequential call is one of the interleavings.
-/

namespace Fgds.Concurrent

open Fgds.Lib.Tiling Fgds.Device Fgds.Uring Fgds.Pipeline Fgds.ReadWrite Fgds.Transfer

/-! ## The system -/

/-- Where a call is: before the set-up of the ring, between two batches, or returned. -/
inductive Phase where
  | starting
  | running (done : Nat) (total : Int)
  | finished (ret : Int)

/-- A call, with what the kernel has carried out for it and what it has reaped. -/
structure Thread where
  op : Opcode
  req : Req
  phase : Phase
  log : List Cqe
  took : List Cqe

/-- `exhausted` remembers whether `io_uring_get_sqe` ever returned NULL. -/
structure Sys where
  ring : Ring
  exhausted : Bool
  threads : List Thread

/-- One more call, told apart by its number. -/
def Sys.start (sys : Sys) (op : Opcode) (req : Req) : Sys :=
  { sys with threads := sys.threads ++ [⟨op, req, .starting, [], []⟩] }

/-- Call `i` has seen to the set-up of the ring. -/
def Sys.setup (sys : Sys) (i : Nat) (t : Thread) : Sys :=
  { sys with
    ring := if sys.ring.uringInit then sys.ring else ⟨true, [], []⟩
    threads := sys.threads.set i { t with phase := .running 0 0 } }

/-- Call `i` has run a batch and released the lock. -/
def Sys.batch (sys : Sys) (i : Nat) (t : Thread) (done : Nat) (b : BatchResult) : Sys where
  ring := b.ring
  exhausted := sys.exhausted || b.exhausted
  threads := sys.threads.set i
    { t with
      phase := if b.error then .finished (-1) else .running (done + b.bytes) b.total
      log := t.log ++ b.log
      took := t.took ++ b.took }

def Sys.finish (sys : Sys) (i : Nat) (t : Thread) (total : Int) : Sys :=
  { sys with threads := sys.threads.set i { t with phase := .finished total } }

variable {head : List MmapNode}

inductive Step (head : List MmapNode) : Sys → Sys → Prop
  | start {sys : Sys} (op : Opcode) (req : Req) : Nonempty (Window head req) →
      threshold op ≤ req.nbyte → req.owner = sys.threads.length → Step head sys (sys.start op req)
  | setup {sys : Sys} {i : Nat} {t : Thread} : sys.threads[i]? = some t → t.phase = .starting →
      Step head sys (sys.setup i t)
  | batch {sys : Sys} {i : Nat} {t : Thread} {done : Nat} {total : Int} {s : Sched}
      {b : BatchResult} : sys.threads[i]? = some t → t.phase = .running done total →
      done < t.req.size → Fair s →
      uringBatch head t.op t.req s done total sys.ring = some b →
      Step head sys (sys.batch i t done b)
  | finish {sys : Sys} {i : Nat} {t : Thread} {done : Nat} {total : Int} :
      sys.threads[i]? = some t → t.phase = .running done total → ¬ done < t.req.size →
      Step head sys (sys.finish i t total)

/-- The states that threads on a device with an idle ring can reach. -/
inductive Reach (head : List MmapNode) : Sys → Prop
  | init (ring : Ring) : Ring.Idle ring → Reach head ⟨ring, false, []⟩
  | step {sys sys' : Sys} : Reach head sys → Step head sys sys' → Reach head sys'

/-! ## The invariant -/

/-- The results so far, and the value returned once the call is over. -/
def PhaseOk (size : Nat) (log : List Cqe) : Phase → Prop
  | .starting => log = []
  | .running done total => done ≤ size ∧ (∀ c ∈ log, 0 ≤ c.res) ∧ total = sumRes log
  | .finished ret =>
    ((∃ c ∈ log, c.res < 0) ∧ ret = -1) ∨ ((∀ c ∈ log, 0 ≤ c.res) ∧ ret = sumRes log)

structure ThreadOk (head : List MmapNode) (i : Nat) (t : Thread) : Prop where
  window : Nonempty (Window head t.req)
  owner : t.req.owner = i
  own : ∀ c ∈ t.log, c.sqe.owner = i
  took : t.took.Perm t.log
  phase : PhaseOk t.req.size t.log t.phase

structure Inv (head : List MmapNode) (sys : Sys) : Prop where
  idle : Ring.Idle sys.ring
  exhausted : sys.exhausted = false
  threads : ∀ i t, sys.threads[i]? = some t → ThreadOk head i t

/-- Only the thread that took the step has changed. -/
theorem threads_set {ts : List Thread} {i : Nat} {t' : Thread}
    (h : ∀ j t, ts[j]? = some t → ThreadOk head j t) (h' : ThreadOk head i t') :
    ∀ j t, (ts.set i t')[j]? = some t → ThreadOk head j t := by
  intro j t ht
  rw [List.getElem?_set] at ht
  split at ht
  · rename_i hij
    split at ht
    · cases ht
      exact hij ▸ h'
    · cases ht
  · exact h j t ht

theorem ThreadOk.running {i done : Nat} {t : Thread} {total : Int} (h : ThreadOk head i t)
    (hp : t.phase = .running done total) :
    done ≤ t.req.size ∧ (∀ c ∈ t.log, 0 ≤ c.res) ∧ total = sumRes t.log := by
  have hphase := h.phase
  rw [hp] at hphase
  exact hphase

/-- What a batch makes of the thread that ran it. -/
theorem ThreadOk.batch {i done : Nat} {t : Thread} {total : Int} {s : Sched} {ring : Ring}
    {b : BatchResult} (h : ThreadOk head i t) (hp : t.phase = .running done total)
    (w : Window head t.req) (hdn : BatchDone w t.op s ring done total b) :
    ThreadOk head i
      { t with
        phase := if b.error then .finished (-1) else .running (done + b.bytes) b.total
        log := t.log ++ b.log
        took := t.took ++ b.took } := by
  obtain ⟨_, hnonneg, htotal⟩ := h.running hp
  refine ⟨h.window, h.owner, ?_, h.took.append hdn.took, ?_⟩
  · intro c hc
    rcases List.mem_append.mp hc with hc | hc
    · exact h.own c hc
    · obtain ⟨qs, hqs, hperm⟩ := hdn.tiles
      obtain ⟨_, _, _, _, hat⟩ := tiles_mem hqs (hperm.mem_iff.mp (List.mem_map_of_mem hc))
      rw [hat.owner, h.owner]
  · cases he : b.error with
    | true =>
      obtain ⟨c, hc, hneg⟩ := hdn.error.mp he
      exact Or.inl ⟨⟨c, List.mem_append_right _ hc, hneg⟩, rfl⟩
    | false =>
      have hbound := hdn.bound
      refine ⟨by rw [w.size]; exact hbound, fun c hc => ?_, ?_⟩
      · rcases List.mem_append.mp hc with hc | hc
        · exact hnonneg c hc
        · by_contra hneg
          have hbad := hdn.error.mpr ⟨c, hc, by omega⟩
          rw [he] at hbad
          cases hbad
      · rw [sumRes_append, hdn.total he, htotal]

section Transitions

variable {sys : Sys} (h : Inv head sys)
include h

theorem Inv.start {op : Opcode} {req : Req} (hw : Nonempty (Window head req))
    (howner : req.owner = sys.threads.length) : Inv head (sys.start op req) := by
  refine ⟨h.idle, h.exhausted, fun j t ht => ?_⟩
  rw [Sys.start, List.getElem?_append] at ht
  split at ht
  · exact h.threads j t ht
  · rename_i hj
    obtain ⟨hj', rfl⟩ : j - sys.threads.length = 0 ∧ t = ⟨op, req, .starting, [], []⟩ := by
      rw [List.getElem?_singleton] at ht
      split at ht
      · rename_i h0
        cases ht
        exact ⟨h0, rfl⟩
      · cases ht
    exact ⟨hw, by simp only; omega, by simp, List.Perm.refl _, rfl⟩

theorem Inv.setup {i : Nat} {t : Thread} (ht : sys.threads[i]? = some t)
    (hp : t.phase = .starting) : Inv head (sys.setup i t) := by
  have hok := h.threads i t ht
  have hlog : t.log = [] := by
    have hphase := hok.phase
    rw [hp] at hphase
    exact hphase
  refine ⟨?_, h.exhausted, threads_set h.threads ⟨hok.window, hok.owner, hok.own, hok.took, ?_⟩⟩
  · simp only [Sys.setup]
    split
    · exact h.idle
    · exact ⟨rfl, rfl⟩
  · exact ⟨Nat.zero_le _, by simp [hlog], by simp [hlog]⟩

theorem Inv.batch {i done : Nat} {t : Thread} {total : Int} {s : Sched} {b : BatchResult}
    (ht : sys.threads[i]? = some t) (hp : t.phase = .running done total) (hlt : done < t.req.size)
    (hs : Fair s) (hb : uringBatch head t.op t.req s done total sys.ring = some b) :
    Inv head (sys.batch i t done b) := by
  have hok := h.threads i t ht
  obtain ⟨w⟩ := hok.window
  obtain ⟨b', hb', hdn⟩ := uringBatch_window w t.op hs h.idle (by rw [← w.size]; exact hlt) total
  rw [hb, Option.some.injEq] at hb'
  subst hb'
  refine ⟨?_, ?_, threads_set h.threads (hok.batch hp w hdn)⟩
  · rw [Sys.batch, hdn.ring]
    exact h.idle
  · simp only [Sys.batch, h.exhausted, hdn.exhausted, Bool.or_false]

theorem Inv.finish {i done : Nat} {t : Thread} {total : Int} (ht : sys.threads[i]? = some t)
    (hp : t.phase = .running done total) : Inv head (sys.finish i t total) := by
  have hok := h.threads i t ht
  refine ⟨h.idle, h.exhausted, threads_set h.threads ⟨hok.window, hok.owner, hok.own, hok.took,
    ?_⟩⟩
  exact Or.inr (hok.running hp).2

theorem Inv.step {sys' : Sys} (hstep : Step head sys sys') : Inv head sys' := by
  cases hstep with
  | start op req hw hn howner => exact h.start hw howner
  | setup ht hp => exact h.setup ht hp
  | batch ht hp hlt hs hb => exact h.batch ht hp hlt hs hb
  | finish ht hp hlt => exact h.finish ht hp

end Transitions

theorem Reach.inv {sys : Sys} (h : Reach head sys) : Inv head sys := by
  induction h with
  | init ring hidle => exact ⟨hidle, rfl, by simp⟩
  | step _ hstep ih => exact ih.step hstep

/-! ## A call on its own -/

theorem Reach.steps {sys sys' : Sys} (h : Reach head sys)
    (hsteps : Relation.ReflTransGen (Step head) sys sys') : Reach head sys' := by
  induction hsteps with
  | refl => exact h
  | tail _ hstep ih => exact ih.step hstep

/-- The outer loop of a call is a sequence of steps of its thread. -/
theorem steps_rounds {op : Opcode} {req : Req} {batch : Nat → Sched} (hs : ∀ i, Fair (batch i))
    {n done : Nat} {total : Int} {ring : Ring} {res : IoResult}
    (h : Rounds head op req batch n done total ring res) {sys : Sys} (hring : sys.ring = ring)
    {i : Nat} {log took : List Cqe}
    (ht : sys.threads[i]? = some ⟨op, req, .running done total, log, took⟩) :
    ∃ sys', Relation.ReflTransGen (Step head) sys sys' ∧ sys'.ring = res.ring ∧
      sys'.threads = sys.threads.set i
        ⟨op, req, .finished res.ret, log ++ res.log, took ++ res.took⟩ := by
  induction h generalizing sys log took with
  | finish hge =>
    subst hring
    exact ⟨_, .single (.finish ht rfl hge), rfl, by simp [Sys.finish]⟩
  | fail hlt hb he =>
    subst hring
    exact ⟨_, .single (.batch ht rfl hlt (hs _) hb), rfl, by simp [Sys.batch, he]⟩
  | @more n done total ring b rest hlt hb he _ ih =>
    subst hring
    have hi : i < sys.threads.length := (List.getElem?_eq_some_iff.mp ht).1
    have hstep := Step.batch ht rfl hlt (hs n) hb
    have hnext : (sys.batch i ⟨op, req, .running done total, log, took⟩ done b).threads[i]? =
        some ⟨op, req, .running (done + b.bytes) b.total, log ++ b.log, took ++ b.took⟩ := by
      simp [Sys.batch, he, hi]
    obtain ⟨sys', hsteps, hring, hthreads⟩ := ih rfl hnext
    refine ⟨sys', .head hstep hsteps, hring, ?_⟩
    rw [hthreads]
    simp [Sys.batch]

/-- A sequential call that takes the pipeline is one of the interleavings: the one in
which no other thread runs. -/
theorem call_refines {sys : Sys} (h : Reach head sys) (op : Opcode) {req : Req}
    (hw : Nonempty (Window head req)) (hn : threshold op ≤ req.nbyte)
    (howner : req.owner = sys.threads.length) {k : Kernel} (hinit : 0 ≤ k.queueInit)
    (hs : ∀ i, Fair (k.batch i)) {res : IoResult}
    (hres : fgdsCall op head k sys.ring req = some res) :
    ∃ sys', Reach head sys' ∧ sys'.ring = res.ring ∧
      sys'.threads = sys.threads ++ [⟨op, req, .finished res.ret, res.log, res.took⟩] := by
  have hstart : (sys.start op req).threads[sys.threads.length]? =
      some ⟨op, req, .starting, [], []⟩ := by
    simp [Sys.start]
  have hready := (h.step (.start op req hw hn howner)).step (.setup hstart rfl)
  rw [fgdsCall_eq, if_neg (by omega)] at hres
  have hloop : uringLoop head op req k.batch 0 0 0
      ((sys.start op req).setup sys.threads.length ⟨op, req, .starting, [], []⟩).ring =
      some res := by
    rw [← hres]
    by_cases hu : sys.ring.uringInit = true
    · simp only [fgdsPipeline, Sys.setup, Sys.start, hu, ↓reduceIte]
    · simp only [fgdsPipeline, Sys.setup, Sys.start, hu, ↓reduceIte, Bool.false_eq_true]
      rw [if_neg (by omega)]
  have hrun : ((sys.start op req).setup sys.threads.length
      ⟨op, req, .starting, [], []⟩).threads[sys.threads.length]? =
      some ⟨op, req, .running 0 0, [], []⟩ := by
    simp [Sys.setup, Sys.start]
  obtain ⟨sys', hsteps, hring, hthreads⟩ := steps_rounds hs (uringLoop_rounds hloop) rfl hrun
  refine ⟨sys', hready.steps hsteps, hring, ?_⟩
  rw [hthreads]
  simp [Sys.setup, Sys.start]

/-! ## Every interleaving -/

/-- In every reachable state, that is whenever the lock is free: nothing is queued, in
flight or unreaped; `io_uring_get_sqe` never returned NULL; every call has reaped the
CQEs of its own SQEs and no others, has returned -1 if and only if one of them failed,
and otherwise their sum; and the next batch of a call that is not over comes to its
end. -/
theorem concurrent_calls {sys : Sys} (h : Reach head sys) :
    (sys.ring.sq = [] ∧ sys.ring.owed = []) ∧ sys.exhausted = false ∧
    ∀ (i : Nat) (t : Thread), sys.threads[i]? = some t →
      (t.took.Perm t.log ∧ ∀ c ∈ t.took, c.sqe.owner = i) ∧
      (∀ ret, t.phase = .finished ret →
        (ret = -1 ↔ ∃ c ∈ t.took, c.res < 0) ∧
        ((∀ c ∈ t.took, 0 ≤ c.res) → ret = sumRes t.took)) ∧
      (∀ done total s, t.phase = .running done total → done < t.req.size → Fair s →
        (uringBatch head t.op t.req s done total sys.ring).isSome) := by
  have hinv := h.inv
  refine ⟨hinv.idle, hinv.exhausted, fun i t ht => ?_⟩
  have hok := hinv.threads i t ht
  have hmem : ∀ c, c ∈ t.took ↔ c ∈ t.log := fun c => hok.took.mem_iff
  refine ⟨⟨hok.took, fun c hc => hok.own c ((hmem c).mp hc)⟩, fun ret hp => ?_, ?_⟩
  · have hphase := hok.phase
    rw [hp] at hphase
    simp only [hmem, sumRes_perm hok.took]
    rcases hphase with ⟨hbad, hret⟩ | ⟨hgood, hret⟩
    · refine ⟨iff_of_true hret hbad, fun hall => ?_⟩
      obtain ⟨c, hc, hneg⟩ := hbad
      have := hall c hc
      omega
    · have hnonneg : 0 ≤ sumRes t.log := List.sum_nonneg fun x hx => by
        obtain ⟨c, hc, rfl⟩ := List.mem_map.mp hx
        exact hgood c hc
      refine ⟨iff_of_false (by omega) ?_, fun _ => hret⟩
      rintro ⟨c, hc, hneg⟩
      have := hgood c hc
      omega
  · intro done total s _ hlt hs
    obtain ⟨w⟩ := hok.window
    obtain ⟨b, hb, _⟩ := uringBatch_window w t.op hs hinv.idle (by rw [← w.size]; exact hlt) total
    rw [hb]
    rfl

/-! ## An example -/

/-- 128MB at 1MB and 128MB at 256MB, mapped at 4GB and at 8GB. -/
def largeRegions : OpenDevice where
  head := [oneSegment 1 4294967296 1048576 134217728,
    oneSegment 2 8589934592 268435456 134217728]
  registered := by
    simp only [List.mem_cons, List.not_mem_nil, or_false, forall_eq_or_imp, forall_eq]
    exact ⟨oneSegment_registered _ _ _ _ (by decide) (by decide) (by decide) (by decide),
      oneSegment_registered _ _ _ _ (by decide) (by decide) (by decide) (by decide)⟩
  gpuEnd := by decide
  gpuDisjoint := List.pairwise_pair.mpr (Or.inl (by decide))
  hostDisjoint := List.pairwise_pair.mpr fun i hi j hj => by
    obtain rfl : i = 0 := by simpa [oneSegment] using hi
    obtain rfl : j = 0 := by simpa [oneSegment] using hj
    exact Or.inl (by decide)

/-- A read into the first region and a write out of the second one, of two batches each. -/
def readReq : Req := ⟨3, 1048576, 0, 67371008, 0, 0⟩

def writeReq : Req := ⟨4, 268435456, 0, 67371008, 0, 1⟩

/-- What a batch of such a call adds; the kernel reads and writes everything. -/
def BatchAdds (op : Opcode) (req : Req) (done : Nat) (total : Int) (bytes : Nat) : Prop :=
  (uringBatch largeRegions.head op req ((plainKernel 67371008).batch 0) done total
    ⟨true, [], []⟩).map (fun b => (b.error, b.bytes, b.total, b.ring)) =
      some (false, bytes, total + bytes, ⟨true, [], []⟩)

theorem readReq_batches :
    BatchAdds .read readReq 0 0 67108864 ∧ BatchAdds .read readReq 67108864 67108864 262144 := by
  unfold BatchAdds
  decide +kernel

theorem writeReq_batches :
    BatchAdds .write writeReq 0 0 67108864 ∧
      BatchAdds .write writeReq 67108864 67108864 262144 := by
  unfold BatchAdds
  decide +kernel

/-- Call `i` runs such a batch. -/
theorem BatchAdds.reach {op : Opcode} {req : Req} {done bytes : Nat} {total : Int}
    (h : BatchAdds op req done total bytes) {sys : Sys} (hreach : Reach largeRegions.head sys)
    (hring : sys.ring = ⟨true, [], []⟩) {i : Nat} {log took : List Cqe}
    (ht : sys.threads[i]? = some ⟨op, req, .running done total, log, took⟩)
    (hlt : done < req.size) :
    ∃ sys' log' took', Reach largeRegions.head sys' ∧ sys'.ring = ⟨true, [], []⟩ ∧
      sys'.threads = sys.threads.set i
        ⟨op, req, .running (done + bytes) (total + bytes), log', took'⟩ := by
  obtain ⟨b, hb, heq⟩ := Option.map_eq_some_iff.mp h
  simp only [Prod.mk.injEq] at heq
  obtain ⟨herror, rfl, htotal, hbring⟩ := heq
  refine ⟨_, log ++ b.log, took ++ b.took,
    hreach.step (.batch ht rfl hlt (plainKernel_fair 67371008 0) (hring ▸ hb)), hbring, ?_⟩
  rw [Sys.batch, herror, htotal]
  rfl

/-- The batches of the two calls take turns; both have returned in the end. -/
theorem concurrent_calls_turns :
    ∃ mid sys : Sys, Reach largeRegions.head mid ∧
      mid.threads.map (fun t => (t.op, t.req)) = [(.read, readReq), (.write, writeReq)] ∧
      mid.threads.map Thread.phase =
        [.running 67108864 67108864, .running 67108864 67108864] ∧
      Reach largeRegions.head sys ∧ ∃ t t' : Thread, sys.threads = [t, t'] ∧
        t.phase = .finished 67371008 ∧ t'.phase = .finished 67371008 ∧
        (∀ c ∈ t.took, c.sqe.owner = 0) ∧ ∀ c ∈ t'.took, c.sqe.owner = 1 := by
  have hread : Nonempty (Window largeRegions.head readReq) :=
    ⟨baseWindow largeRegions 3 0 (b := 0) (n := 67371008) 0 List.mem_cons_self (by decide)⟩
  have hwrite : Nonempty (Window largeRegions.head writeReq) :=
    ⟨baseWindow largeRegions 4 1 (b := 0) (n := 67371008) 0
      (List.mem_cons_of_mem _ List.mem_cons_self) (by decide)⟩
  have hstart : Reach largeRegions.head ⟨⟨true, [], []⟩, false,
      [⟨.read, readReq, .running 0 0, [], []⟩, ⟨.write, writeReq, .running 0 0, [], []⟩]⟩ := by
    have h₀ : Reach largeRegions.head ⟨⟨false, [], []⟩, false, []⟩ := .init _ ⟨rfl, rfl⟩
    have h₁ := h₀.step (.start .read readReq hread (by decide) rfl)
    have h₂ := h₁.step (.start .write writeReq hwrite (by decide) rfl)
    have h₃ := h₂.step (.setup (i := 1) rfl rfl)
    have h₄ := h₃.step (.setup (i := 0) rfl rfl)
    exact h₄
  obtain ⟨sys₁, _, _, h₁, hr₁, ht₁⟩ := readReq_batches.1.reach hstart rfl (i := 0) rfl (by decide)
  obtain ⟨mid, _, _, hmid, hrm, htm⟩ := writeReq_batches.1.reach h₁ hr₁ (i := 1)
    (by rw [ht₁]; rfl) (by decide)
  obtain ⟨sys₂, log₂, took₂, h₂, hr₂, ht₂⟩ := writeReq_batches.2.reach hmid hrm (i := 1)
    (by rw [htm, ht₁]; rfl) (by decide)
  obtain ⟨sys₃, log₃, took₃, h₃, hr₃, ht₃⟩ := readReq_batches.2.reach h₂ hr₂ (i := 0)
    (by rw [ht₂, htm, ht₁]; rfl) (by decide)
  have hend : Reach largeRegions.head ((sys₃.finish 0 ⟨.read, readReq, .running 67371008 67371008,
      log₃, took₃⟩ 67371008).finish 1 ⟨.write, writeReq, .running 67371008 67371008, log₂, took₂⟩
      67371008) := by
    refine (h₃.step (.finish ?_ rfl (show ¬ 67371008 < readReq.size by decide))).step
      (.finish ?_ rfl (show ¬ 67371008 < writeReq.size by decide))
    · rw [ht₃, ht₂, htm, ht₁]
      rfl
    · rw [Sys.finish, ht₃, ht₂, htm, ht₁]
      rfl
  have hthreads : ((sys₃.finish 0 ⟨.read, readReq, .running 67371008 67371008, log₃, took₃⟩
      67371008).finish 1 ⟨.write, writeReq, .running 67371008 67371008, log₂, took₂⟩
      67371008).threads = [⟨.read, readReq, .finished 67371008, log₃, took₃⟩,
        ⟨.write, writeReq, .finished 67371008, log₂, took₂⟩] := by
    rw [Sys.finish, Sys.finish, ht₃, ht₂, htm, ht₁]
    rfl
  obtain ⟨_, _, hcalls⟩ := concurrent_calls hend
  refine ⟨mid, _, hmid, ?_, ?_, hend, _, _, hthreads, rfl, rfl,
    (hcalls 0 _ (by rw [hthreads]; rfl)).1.2, (hcalls 1 _ (by rw [hthreads]; rfl)).1.2⟩
  · rw [htm, ht₁]
    rfl
  · rw [htm, ht₁]
    rfl

end Fgds.Concurrent
