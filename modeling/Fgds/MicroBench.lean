import Fgds.Lib.Runs
import Fgds.Transfer
import Mathlib.Algebra.Order.BigOperators.Group.Finset

/-!
# The micro-benchmark

`run_fgds` gives every thread a part of the file and a registered GPU buffer of the same size. The
threads transfer their part in blocks of `io_size` bytes, with the calls of libfgds or with SQEs of
their own.

* `State.step`: the threads of the synchronous modes, one call at a time, in any order;
* `sync_threads_move`: they end, and the file and the buffers then agree.
-/

namespace Fgds.MicroBench

open Fgds.Lib.Runs Fgds.Lib.Tiling Fgds.Device Fgds.Pipeline Fgds.ReadWrite Fgds.Storage
open Fgds.Transfer Fgds.Uring

/-! ## Threads -/

/-- `BenchmarkOpts`; `mode` is 0 for reads. -/
structure BenchmarkOpts where
  length : Nat
  numThreads : Nat
  ioSize : Nat
  ioDepth : Nat
  mode : Opcode

/-- `ThreadData` -/
structure ThreadData where
  offset : Nat
  size : Nat
  ioSize : Nat
  depth : Nat
  mode : Opcode
  fd : Int
  gpuBuffer : Nat

def BenchmarkOpts.chunkSize (o : BenchmarkOpts) : Nat := o.length / o.numThreads

/-- The data of thread `i` in `run_fgds`. -/
def BenchmarkOpts.thread (o : BenchmarkOpts) (fd : Int) (gpuBuffer i : Nat) : ThreadData where
  offset := i * o.chunkSize
  size := o.chunkSize
  ioSize := o.ioSize
  depth := o.ioDepth
  mode := o.mode
  fd := fd
  gpuBuffer := gpuBuffer

/-! ## `sync_read_thread` and `sync_write_thread` -/

/-- Where a thread is, with `done_bytes`: at the top of its loop, behind it, returned with an error,
or in a call that does not return. -/
inductive Point where
  | running (doneBytes : Nat)
  | ended (doneBytes : Nat)
  | failed (doneBytes : Nat)
  | hung (doneBytes : Nat)
  deriving DecidableEq

structure State where
  ring : Ring
  world : World
  point : Nat → Point

section Sync

variable (head : List MmapNode)

/-- One round of the loop of thread `i`. -/
def syncRound (t : ThreadData) (i : Nat) (k : Kernel) (ring : Ring) (w : World) (doneBytes : Nat) :
    Ring × World × Point :=
  if doneBytes < t.size then
    match fgdsCall t.mode head k ring
        ⟨t.fd, t.gpuBuffer, doneBytes, t.ioSize, (t.offset + doneBytes : Nat), i⟩ with
    | none => (ring, w, .hung doneBytes)
    | some res =>
      (res.ring, w.applyAll res.log,
        if res.ret = 0 then .ended doneBytes
        else if res.ret ≠ t.ioSize then .failed doneBytes
        else .running (doneBytes + t.ioSize))
  else (ring, w, .ended doneBytes)

/-- The thread of the action goes on, with what the kernel does in this round. -/
def State.step (t : Nat → ThreadData) (s : State) (a : Nat × Kernel) : State :=
  match s.point a.1 with
  | .running doneBytes =>
    let (ring, world, point) := syncRound head (t a.1) a.1 a.2 s.ring s.world doneBytes
    ⟨ring, world, Function.update s.point a.1 point⟩
  | _ => s

end Sync

/-- The regions of the threads on a device. -/
structure Setup where
  dev : ReadyDevice
  opts : BenchmarkOpts
  fd : Int
  region : Nat → MmapNode
  mem : ∀ i < opts.numThreads, region i ∈ dev.head
  length : ∀ i < opts.numThreads, (region i).length = opts.chunkSize
  apart : ∀ i < opts.numThreads, ∀ j < opts.numThreads, region i = region j → i = j
  pos : 0 < opts.ioSize
  blocks : opts.ioSize ∣ opts.chunkSize
  fits : opts.numThreads * opts.chunkSize < 2 ^ 63

namespace Setup

variable (b : Setup)

def thread (i : Nat) : ThreadData := b.opts.thread b.fd (b.region i).gpuAddr i

/-- The transfers of the mode are carried out in full. -/
def Serves (k : Kernel) (w : World) : Prop :=
  match b.opts.mode with
  | .read => FullReads k (w.files b.fd).size
  | .write => FullWrites k

/-- The threads, from any memory and files on; only threads that have not returned take steps. -/
def system (w : World) : System State (Nat × Kernel) where
  init := ⟨b.dev.ring, w, fun _ => .running 0⟩
  step := State.step b.dev.head b.thread
  possible s a := a.1 < b.opts.numThreads ∧ (∃ d, s.point a.1 = .running d) ∧ b.Serves a.2 s.world

end Setup

/-! ## One call -/

section Call

variable {b : Setup} {i d : Nat}

/-- The window of the next call of a thread. -/
structure Moved (b : Setup) (i d : Nat) (w w' : World) : Prop where
  inside : ∀ j < b.opts.ioSize, w'.mem ((b.region i).hostAddr (d + j)) =
    (w'.files b.fd).byte (i * b.opts.chunkSize + d + j)
  mem : ∀ x, (∀ j < b.opts.ioSize, x ≠ (b.region i).hostAddr (d + j)) → w'.mem x = w.mem x
  file : ∀ y, (∀ j < b.opts.ioSize, y ≠ i * b.opts.chunkSize + d + j) →
    (w'.files b.fd).byte y = (w.files b.fd).byte y
  read : b.opts.mode = .read → w'.files = w.files
  write : b.opts.mode = .write → w'.mem = w.mem

/-- The part of a thread is inside the file part of all threads. -/
theorem part_le (b : Setup) (hi : i < b.opts.numThreads) :
    i * b.opts.chunkSize + b.opts.chunkSize ≤ b.opts.numThreads * b.opts.chunkSize := by
  rw [← Nat.succ_mul]
  exact Nat.mul_le_mul_right _ hi

theorem readCall_moves (hmode : b.opts.mode = .read) (hi : i < b.opts.numThreads)
    (hd : d + b.opts.ioSize ≤ b.opts.chunkSize) {k : Kernel} {ring : Ring} {w : World}
    (hidle : Ring.Idle ring) (hk : FullReads k (w.files b.fd).size)
    (hsize : b.opts.numThreads * b.opts.chunkSize ≤ (w.files b.fd).size) :
    ∃ res, fgdsRead b.dev.head k ring ⟨b.fd, (b.region i).gpuAddr, d, b.opts.ioSize,
        (i * b.opts.chunkSize + d : Nat), i⟩ = some res ∧
      res.ret = b.opts.ioSize ∧ Ring.Idle res.ring ∧ Moved b i d w (w.applyAll res.log) := by
  have hpart := part_le b hi
  have hfits := b.fits
  have hin : d + b.opts.ioSize ≤ (b.region i).length := by rwa [b.length i hi]
  obtain ⟨res, cs, hres, hidle', hret, hperm, ht⟩ :=
    fgdsRead_window (b.dev.window b.fd i (i * b.opts.chunkSize + d) (b.mem i hi) hin) rfl
      (by omega) b.pos hk hidle
  obtain ⟨hfiles, hinside, houtside⟩ :=
    reads_effect (b.dev.registered _ (b.mem i hi)) hin hperm ht w
  have hall : min b.opts.ioSize ((w.files b.fd).size - (i * b.opts.chunkSize + d)) =
      b.opts.ioSize := by omega
  simp only [ReadyDevice.window, baseWindow] at hret hinside houtside
  rw [hall] at hret hinside houtside
  refine ⟨res, hres, hret, hidle', fun j hj => ?_, houtside, fun y _ => ?_, fun _ => hfiles,
    fun hw => ?_⟩
  · rw [hinside j hj, hfiles]
  · rw [hfiles]
  · rw [hmode] at hw
    cases hw

theorem writeCall_moves (hmode : b.opts.mode = .write) (hi : i < b.opts.numThreads)
    (hd : d + b.opts.ioSize ≤ b.opts.chunkSize) {k : Kernel} {ring : Ring} {w : World}
    (hidle : Ring.Idle ring) (hk : FullWrites k) :
    ∃ res, fgdsWrite b.dev.head k ring ⟨b.fd, (b.region i).gpuAddr, d, b.opts.ioSize,
        (i * b.opts.chunkSize + d : Nat), i⟩ = some res ∧
      res.ret = b.opts.ioSize ∧ Ring.Idle res.ring ∧ Moved b i d w (w.applyAll res.log) := by
  have hpart := part_le b hi
  have hfits := b.fits
  have hin : d + b.opts.ioSize ≤ (b.region i).length := by rwa [b.length i hi]
  obtain ⟨res, cs, hres, hidle', hret, hperm, ht⟩ :=
    fgdsWrite_window (b.dev.window b.fd i (i * b.opts.chunkSize + d) (b.mem i hi) hin) rfl
      (by omega) b.pos hk hidle
  obtain ⟨hmem, -, -, hinside, houtside⟩ := writes_effect b.pos hperm ht w
  simp only [ReadyDevice.window, baseWindow] at hinside houtside
  refine ⟨res, hres, hret, hidle', fun j hj => ?_, fun x _ => ?_, houtside, fun hr => ?_,
    fun _ => hmem⟩
  · rw [hinside j hj, hmem]
  · rw [hmem]
  · rw [hmode] at hr
    cases hr

/-- A round of a thread that has not moved all of its part. -/
theorem syncRound_moves (hi : i < b.opts.numThreads) (hd : d + b.opts.ioSize ≤ b.opts.chunkSize)
    {k : Kernel} {ring : Ring} {w : World} (hidle : Ring.Idle ring) (hk : b.Serves k w)
    (hsize : b.opts.mode = .read →
      b.opts.numThreads * b.opts.chunkSize ≤ (w.files b.fd).size) :
    ∃ ring' w', syncRound b.dev.head (b.thread i) i k ring w d =
        (ring', w', .running (d + b.opts.ioSize)) ∧ Ring.Idle ring' ∧ Moved b i d w w' := by
  have hpos := b.pos
  obtain ⟨res, hres, hret, hidle', hmoved⟩ : ∃ res, fgdsCall b.opts.mode b.dev.head k ring
      ⟨b.fd, (b.region i).gpuAddr, d, b.opts.ioSize, (i * b.opts.chunkSize + d : Nat), i⟩ =
        some res ∧ res.ret = b.opts.ioSize ∧ Ring.Idle res.ring ∧
      Moved b i d w (w.applyAll res.log) := by
    unfold Setup.Serves at hk
    cases hmode : b.opts.mode with
    | read =>
      rw [hmode] at hk
      exact readCall_moves hmode hi hd hidle hk (hsize hmode)
    | write =>
      rw [hmode] at hk
      exact writeCall_moves hmode hi hd hidle hk
  refine ⟨res.ring, w.applyAll res.log, ?_, hidle', hmoved⟩
  have hlt : d < (b.thread i).size := show d < b.opts.chunkSize by omega
  have hio : ¬ res.ret ≠ (b.thread i).ioSize := not_not.mpr hret
  have hcall : fgdsCall (b.thread i).mode b.dev.head k ring ⟨(b.thread i).fd,
      (b.thread i).gpuBuffer, d, (b.thread i).ioSize, ((b.thread i).offset + d : Nat), i⟩ =
        some res := hres
  rw [syncRound, if_pos hlt, hcall]
  dsimp only
  rw [if_neg (by omega), if_neg hio]
  rfl

end Call

/-! ## Whole runs -/

section Runs

variable {b : Setup} {w : World}

/-- How far a thread is: its first `d` bytes are moved. -/
structure Reached (b : Setup) (s : State) (i d : Nat) : Prop where
  le : d ≤ b.opts.chunkSize
  blocks : b.opts.ioSize ∣ d
  agree : ∀ j < d, s.world.mem ((b.region i).hostAddr j) =
    (s.world.files b.fd).byte (i * b.opts.chunkSize + j)

/-- What holds between the calls. -/
structure Inv (b : Setup) (w : World) (s : State) : Prop where
  idle : Ring.Idle s.ring
  point : ∀ i < b.opts.numThreads, (∃ d, s.point i = .running d ∧ Reached b s i d) ∨
    s.point i = .ended b.opts.chunkSize ∧ Reached b s i b.opts.chunkSize
  read : b.opts.mode = .read → s.world.files = w.files
  write : b.opts.mode = .write → s.world.mem = w.mem

/-- The parts of two threads in the file. -/
theorem parts_apart {c i i' j j' : Nat} (hne : i ≠ i') (hj : j < c) (hj' : j' < c) :
    i * c + j ≠ i' * c + j' := by
  intro he
  have hi : i = (i * c + j) / c :=
    (Nat.div_eq_of_lt_le (by omega) (by rw [Nat.succ_mul]; omega)).symm
  have hi' : i' = (i' * c + j') / c :=
    (Nat.div_eq_of_lt_le (by omega) (by rw [Nat.succ_mul]; omega)).symm
  exact hne (by rw [hi, hi', he])

/-- Another thread moves other bytes, in memory and in the file. -/
theorem Reached.other {s s' : State} {i i' d d' : Nat} (h : Reached b s i d)
    (hi : i < b.opts.numThreads) (hi' : i' < b.opts.numThreads) (hne : i ≠ i')
    (hd' : d' + b.opts.ioSize ≤ b.opts.chunkSize)
    (hmoved : Moved b i' d' s.world s'.world) : Reached b s' i d := by
  have hle := h.le
  have hhost : HostDisjoint (b.region i) (b.region i') :=
    b.dev.hostDisjoint.forall (b.mem i hi) (b.mem i' hi') fun he => hne (b.apart i hi i' hi' he)
  have hlen := b.length i hi
  have hlen' := b.length i' hi'
  refine ⟨h.le, h.blocks, fun j hj => ?_⟩
  rw [hmoved.mem _ fun j' hj' => ?_, hmoved.file _ fun j' hj' => ?_, h.agree j hj]
  · rw [Nat.add_assoc]
    exact parts_apart hne (by omega) (by omega)
  · exact hostAddr_ne (b.dev.registered _ (b.mem i hi)) (b.dev.registered _ (b.mem i' hi')) hhost
      (by omega) (by omega)

/-- The thread itself is one block further. -/
theorem Reached.next {s s' : State} {i d : Nat} (h : Reached b s i d)
    (hi : i < b.opts.numThreads) (hd : d + b.opts.ioSize ≤ b.opts.chunkSize)
    (hmoved : Moved b i d s.world s'.world) : Reached b s' i (d + b.opts.ioSize) := by
  have hlen := b.length i hi
  refine ⟨hd, (Nat.dvd_add_right h.blocks).mpr (Nat.dvd_refl _), fun j hj => ?_⟩
  rcases Nat.lt_or_ge j d with hold | hnew
  · rw [hmoved.mem _ fun j' hj' he => ?_, hmoved.file _ fun j' hj' => by omega, h.agree j hold]
    have := (b.dev.registered _ (b.mem i hi)).hostAddr_inj (by omega) (by omega) he
    omega
  · obtain ⟨j', rfl⟩ := Nat.exists_eq_add_of_le hnew
    rw [hmoved.inside j' (by omega), Nat.add_assoc]

theorem step_running {s : State} {a : Nat × Kernel} {d : Nat} (hd : s.point a.1 = .running d)
    {ring' : Ring} {w' : World} {p : Point}
    (hround : syncRound b.dev.head (b.thread a.1) a.1 a.2 s.ring s.world d = (ring', w', p)) :
    (b.system w).step s a = ⟨ring', w', Function.update s.point a.1 p⟩ := by
  change State.step b.dev.head b.thread s a = _
  rw [State.step, hd]
  dsimp only
  rw [hround]

theorem Inv.init (b : Setup) (w : World) : Inv b w (b.system w).init where
  idle := b.dev.idle
  point _ _ := .inl ⟨0, rfl, Nat.zero_le _, Nat.dvd_zero _,
    fun j hj => absurd hj (Nat.not_lt_zero j)⟩
  read _ := rfl
  write _ := rfl

theorem Inv.step (hsize : b.opts.mode = .read →
      b.opts.numThreads * b.opts.chunkSize ≤ (w.files b.fd).size) {s : State} {a : Nat × Kernel}
    (h : Inv b w s) (ha : (b.system w).possible s a) : Inv b w ((b.system w).step s a) := by
  obtain ⟨hi, ⟨d, hd⟩, hk⟩ := ha
  have hreached : Reached b s a.1 d := by
    rcases h.point a.1 hi with ⟨d', hd', hreached⟩ | ⟨hended, -⟩
    · rw [hd] at hd'
      cases hd'
      exact hreached
    · rw [hd] at hended
      cases hended
  rcases Nat.lt_or_eq_of_le hreached.le with hlt | rfl
  · -- a block is moved
    have hnext : d + b.opts.ioSize ≤ b.opts.chunkSize := by
      obtain ⟨x, rfl⟩ := hreached.blocks
      obtain ⟨y, hy⟩ := b.blocks
      rw [hy] at hlt ⊢
      rw [← Nat.mul_succ]
      exact Nat.mul_le_mul_left _ (Nat.lt_of_mul_lt_mul_left hlt)
    obtain ⟨ring', w', hround, hidle', hmoved⟩ := syncRound_moves hi hnext h.idle hk fun hr => by
      rw [h.read hr]
      exact hsize hr
    rw [step_running hd hround]
    refine ⟨hidle', fun i hin => ?_, fun hr => (hmoved.read hr).trans (h.read hr),
      fun hw => (hmoved.write hw).trans (h.write hw)⟩
    rcases eq_or_ne i a.1 with rfl | hne
    · exact .inl ⟨_, Function.update_self .., hreached.next hin hnext hmoved⟩
    · dsimp only
      rw [Function.update_of_ne hne]
      rcases h.point i hin with ⟨d', hd', hr⟩ | ⟨hended, hr⟩
      · exact .inl ⟨d', hd', hr.other hin hi hne hnext hmoved⟩
      · exact .inr ⟨hended, hr.other hin hi hne hnext hmoved⟩
  · -- the thread leaves its loop
    have hround : syncRound b.dev.head (b.thread a.1) a.1 a.2 s.ring s.world b.opts.chunkSize =
        (s.ring, s.world, .ended b.opts.chunkSize) := if_neg (Nat.lt_irrefl _)
    rw [step_running hd hround]
    refine ⟨h.idle, fun i hin => ?_, h.read, h.write⟩
    rcases eq_or_ne i a.1 with rfl | hne
    · exact .inr ⟨Function.update_self .., hreached.le, hreached.blocks, hreached.agree⟩
    · dsimp only
      rw [Function.update_of_ne hne]
      rcases h.point i hin with ⟨d', hd', hr⟩ | ⟨hended, hr⟩
      · exact .inl ⟨d', hd', hr.le, hr.blocks, hr.agree⟩
      · exact .inr ⟨hended, hr.le, hr.blocks, hr.agree⟩

/-! ## The end of the threads -/

/-- The rounds that a thread still has, at most. -/
def left (b : Setup) : Point → Nat
  | .running d => b.opts.chunkSize - d + 1
  | _ => 0

def leftAll (b : Setup) (s : State) : Nat :=
  ∑ i ∈ Finset.range b.opts.numThreads, left b (s.point i)

theorem left_syncRound (b : Setup) (i : Nat) (k : Kernel) (ring : Ring) (w : World) (d : Nat) :
    left b (syncRound b.dev.head (b.thread i) i k ring w d).2.2 < left b (.running d) := by
  have hpos := b.pos
  unfold syncRound
  split
  · rename_i hlt
    have hlt : d < b.opts.chunkSize := hlt
    split
    · exact Nat.succ_pos _
    · dsimp only
      split
      · exact Nat.succ_pos _
      · split
        · exact Nat.succ_pos _
        · change b.opts.chunkSize - (d + b.opts.ioSize) + 1 < b.opts.chunkSize - d + 1
          omega
  · exact Nat.succ_pos _

theorem left_step (b : Setup) (w : World) (s : State) (a : Nat × Kernel)
    (ha : (b.system w).possible s a) : leftAll b ((b.system w).step s a) < leftAll b s := by
  obtain ⟨hi, ⟨d, hd⟩, -⟩ := ha
  have hself := left_syncRound b a.1 a.2 s.ring s.world d
  rcases hround : syncRound b.dev.head (b.thread a.1) a.1 a.2 s.ring s.world d with ⟨ring', w', p⟩
  rw [hround] at hself
  rw [step_running hd hround]
  unfold leftAll
  dsimp only
  refine Finset.sum_lt_sum (fun i _ => ?_) ⟨a.1, Finset.mem_range.mpr hi, ?_⟩
  · rcases eq_or_ne i a.1 with rfl | hne
    · rw [Function.update_self, hd]
      exact hself.le
    · rw [Function.update_of_ne hne]
  · rw [Function.update_self, hd]
    exact hself

/-- **The synchronous modes.** The threads take turns in any order, and the kernel carries out every
transfer: they come to an end, none of them with an error, and at the end the file and the buffers
of the threads, one after the other, hold the same bytes. Reading leaves the file as it was and
writing the buffers. -/
theorem sync_threads_move (b : Setup) (w : World)
    (hsize : b.opts.mode = .read → b.opts.numThreads * b.opts.chunkSize ≤ (w.files b.fd).size)
    {acts : List (Nat × Kernel)}
    (hacts : (b.system w).Along (b.system w).possible (b.system w).init acts) :
    let s := (b.system w).after (b.system w).init acts
    acts.length ≤ b.opts.numThreads * (b.opts.chunkSize + 1) ∧
    (∀ i < b.opts.numThreads,
      (∃ d, s.point i = .running d) ∨ s.point i = .ended b.opts.chunkSize) ∧
    ((∀ i < b.opts.numThreads, s.point i = .ended b.opts.chunkSize) →
      ∀ y < b.opts.numThreads * b.opts.chunkSize, (s.world.files b.fd).byte y =
        s.world.mem ((b.region (y / b.opts.chunkSize)).hostAddr (y % b.opts.chunkSize))) ∧
    (b.opts.mode = .read → s.world.files = w.files) ∧
    (b.opts.mode = .write → s.world.mem = w.mem) := by
  have hinv : Inv b w ((b.system w).after (b.system w).init acts) :=
    System.after_along (Inv.init b w) (fun s a hs ha => hs.step hsize ha) hacts
  have hlength := hacts.length_le (left_step b w)
  have hinit : leftAll b (b.system w).init = b.opts.numThreads * (b.opts.chunkSize + 1) := by
    have hall : ∀ i, left b ((b.system w).init.point i) = b.opts.chunkSize + 1 := fun _ => rfl
    rw [leftAll, Finset.sum_congr rfl fun i _ => hall i, Finset.sum_const, Finset.card_range,
      smul_eq_mul]
  refine ⟨by omega, fun i hi => ?_, fun hended y hy => ?_, hinv.read, hinv.write⟩
  · rcases hinv.point i hi with ⟨d, hd, -⟩ | ⟨hend, -⟩
    · exact .inl ⟨d, hd⟩
    · exact .inr hend
  · have hpos : 0 < b.opts.chunkSize :=
      Nat.pos_of_mul_pos_left (Nat.lt_of_le_of_lt (Nat.zero_le y) hy)
    have hi : y / b.opts.chunkSize < b.opts.numThreads :=
      Nat.div_lt_of_lt_mul (by rwa [Nat.mul_comm])
    rcases hinv.point _ hi with ⟨d, hd, -⟩ | ⟨-, hreached⟩
    · rw [hended _ hi] at hd
      cases hd
    · have hagree := hreached.agree (y % b.opts.chunkSize) (Nat.mod_lt y hpos)
      rw [Nat.div_add_mod'] at hagree
      exact hagree.symm

end Runs

/-- Two threads write 4MB each, in blocks of 1MB. -/
def twoWriters : Setup where
  dev := twoRegions
  opts := ⟨8388608, 2, 1048576, 1, .write⟩
  fd := 3
  region i := if i = 0 then oneSegment 1 4294967296 1048576 4194304
    else oneSegment 2 8589934592 16777216 4194304
  mem := by decide
  length := by decide
  apart := by decide
  pos := by decide
  blocks := by decide
  fits := by decide

/-- The second thread writes a block, then the first one: the buffers stay as they were, and the
second thread has not failed. -/
theorem sync_threads_move_two :
    ((twoWriters.system (plainWorld 0)).after (twoWriters.system (plainWorld 0)).init
        [(1, plainKernel 0), (0, plainKernel 0)]).world.mem = (plainWorld 0).mem ∧
      ((∃ d, ((twoWriters.system (plainWorld 0)).after (twoWriters.system (plainWorld 0)).init
          [(1, plainKernel 0), (0, plainKernel 0)]).point 1 = .running d) ∨
        ((twoWriters.system (plainWorld 0)).after (twoWriters.system (plainWorld 0)).init
          [(1, plainKernel 0), (0, plainKernel 0)]).point 1 = .ended 4194304) := by
  have hacts : (twoWriters.system (plainWorld 0)).Along (twoWriters.system (plainWorld 0)).possible
      (twoWriters.system (plainWorld 0)).init [(1, plainKernel 0), (0, plainKernel 0)] := by
    refine ⟨⟨by decide, ⟨0, rfl⟩, plainKernel_writes 0⟩, ⟨by decide, ⟨0, ?_⟩,
      plainKernel_writes 0⟩, trivial⟩
    rcases hround : syncRound twoWriters.dev.head (twoWriters.thread 1) 1 (plainKernel 0)
      twoWriters.dev.ring (plainWorld 0) 0 with ⟨ring', w', p⟩
    have hstep := step_running (w := plainWorld 0) (s := (twoWriters.system (plainWorld 0)).init)
      (a := (1, plainKernel 0)) rfl hround
    rw [hstep]
    exact Function.update_of_ne (show (0 : Nat) ≠ 1 by decide) p _
  obtain ⟨-, hpoint, -, -, hmem⟩ :=
    sync_threads_move twoWriters (plainWorld 0) (fun h => by cases h) hacts
  exact ⟨hmem rfl, hpoint 1 (by decide)⟩

end Fgds.MicroBench
