import Mathlib.Data.List.Nodup
import Mathlib.Data.List.ReduceOption
import Fgds.Lib.Runs

/-!
# The fio engine

`benchmarks/fio/fgds_fio.cpp`: `fgds_queue` puts `io_u`s of one direction into the array
`io_us`, `fgds_commit` executes them, and `fgds_getevents` reports them as events, which fio
collects with `fgds_event`. The array is both the queue and the list of events: an `io_u`
that is accepted before the events have been collected takes the place of one of them.

* `Bounded`: in every sequence of calls no index at or above `iodepth` is written, and a
  batch has one direction;
* `commit_executes`: a commit that succeeds executes the whole batch, with each backend;
* `completes_once_iff`: every accepted `io_u` is executed once and reported once if and only
  if `fgds_queue` accepts nothing while there are uncollected events;
* `event_overwritten`: queue, commit, queue, getevents loses the first `io_u`.
-/

namespace Fgds.Fio

open Fgds.Lib.Runs

/-! ## The engine -/

inductive Ddir where
  | read
  | write
  deriving DecidableEq

/-- One use of an `io_u`, from `fgds_queue` on: two calls of `fgds_queue` have two numbers,
also when fio passes the same structure again. -/
structure IoU where
  number : Nat
  ddir : Ddir
  deriving DecidableEq

structure Options where
  iodepth : Nat
  enableFgds : Bool
  enableIouring : Bool

/-- `fgds_data`; the entries of `io_us` are `NULL` at first. -/
structure FgdsData where
  ioUs : List (Option IoU)
  queued : Nat
  events : Nat
  lastDdir : Ddir

/-- `fgds_init` -/
def fgdsInit (o : Options) : FgdsData where
  ioUs := List.replicate o.iodepth none
  queued := 0
  events := 0
  lastDdir := .read

/-- `fio_q_status`, where `FIO_Q_QUEUED` comes with the index that was written. -/
inductive QStatus where
  | queued (index : Nat)
  | busy
  deriving DecidableEq

/-- `vec[sd->queued++] = io_u` -/
def FgdsData.push (sd : FgdsData) (u : IoU) : FgdsData :=
  { sd with ioUs := sd.ioUs.set sd.queued (some u), queued := sd.queued + 1 }

def fgdsQueue (o : Options) (sd : FgdsData) (u : IoU) : QStatus × FgdsData :=
  if u.ddir ≠ sd.lastDdir then
    if sd.queued ≠ 0 then (.busy, sd)
    else (.queued sd.queued, { sd.push u with lastDdir := u.ddir })
  else
    if sd.queued = o.iodepth then (.busy, sd)
    else (.queued sd.queued, sd.push u)

/-- What the calls below the engine return for an `io_u` in a direction. -/
structure Io where
  /-- `fgds_do_xfer_addr` and the submission entries: 0, `-EIO` or `-ENOMEM` -/
  prepare : IoU → Ddir → Int
  /-- `io_uring_submit` -/
  submit : Int
  /-- the first result of `io_uring_wait_cqe` that is not 0, or 0 -/
  wait : Int
  /-- `fgds_read`, `fgds_write` -/
  fgds : IoU → Ddir → Int
  /-- `pread`, `pwrite` (`-errno` if they fail) -/
  native : IoU → Ddir → Int
  /-- `cudaMemcpy` succeeds -/
  memcpy : IoU → Ddir → Bool

def eio : Int := 5

/-- A loop over the batch that stops at the first negative result; the second component
lists what was carried out. -/
def commitLoop (res : IoU → Int) : List IoU → Int × List IoU
  | [] => (0, [])
  | u :: rest =>
    if res u < 0 then (res u, [])
    else
      let r := commitLoop res rest
      (r.1, u :: r.2)

/-- `vec[0 .. queued)` -/
def FgdsData.batch (sd : FgdsData) : List IoU := (sd.ioUs.take sd.queued).reduceOption

/-- `vec[0 .. events)`: what `fgds_event` will return. -/
def FgdsData.uncollected (sd : FgdsData) : List IoU := (sd.ioUs.take sd.events).reduceOption

/-- Everything is prepared, then submitted with one call, then waited for. -/
def fgdsIouringCommit (io : Io) (sd : FgdsData) : Int × List IoU :=
  let prepared := commitLoop (io.prepare · sd.lastDdir) sd.batch
  if prepared.1 < 0 then (prepared.1, [])
  else if io.submit < 0 then (io.submit, [])
  else if io.wait < 0 then (io.wait, prepared.2)
  else (0, prepared.2)

def fgdsSyncCommit (io : Io) (sd : FgdsData) : Int × List IoU :=
  commitLoop (io.fgds · sd.lastDdir) sd.batch

def fgdsNativeCommit (io : Io) (sd : FgdsData) : Int × List IoU :=
  commitLoop (fun u =>
    if io.native u sd.lastDdir < 0 then io.native u sd.lastDdir
    else if io.memcpy u sd.lastDdir then 0 else -eio) sd.batch

structure Commit where
  ret : Int
  executed : List IoU
  data : FgdsData

/-- The three tests of the options in `fgds_commit`, one of which is true. -/
def backendCommit (o : Options) (io : Io) (sd : FgdsData) : Int × List IoU :=
  if o.enableFgds && o.enableIouring then fgdsIouringCommit io sd
  else if o.enableFgds && !o.enableIouring then fgdsSyncCommit io sd
  else fgdsNativeCommit io sd

def fgdsCommit (o : Options) (io : Io) (sd : FgdsData) : Commit :=
  if sd.queued = 0 then ⟨0, [], sd⟩
  else
    let r := backendCommit o io sd
    if r.1 < 0 then ⟨r.1, r.2, sd⟩
    else ⟨0, r.2, { sd with events := sd.queued, queued := 0 }⟩

/-- The number of events. -/
def fgdsGetevents (sd : FgdsData) (min : Nat) : Nat × FgdsData :=
  if min ≠ 0 then (sd.events, { sd with events := 0 }) else (0, sd)

def fgdsEvent (sd : FgdsData) (event : Nat) : Option IoU := (sd.ioUs[event]?).join

/-! ## Sequences of calls -/

/-- The engine, the number of `fgds_queue` calls so far and what came of them. -/
structure State where
  data : FgdsData
  calls : Nat
  accepted : List IoU
  executed : List IoU
  reported : List IoU
  written : List Nat

inductive Call where
  | queue (ddir : Ddir)
  | commit (io : Io)
  | getevents (min : Nat)

/-- fio calls `fgds_event` for each of the events reported. -/
def State.step (o : Options) (s : State) : Call → State
  | .queue ddir =>
    let u : IoU := ⟨s.calls, ddir⟩
    match fgdsQueue o s.data u with
    | (.queued i, data) =>
      { s with
        data, calls := s.calls + 1, accepted := s.accepted ++ [u], written := s.written ++ [i] }
    | (.busy, data) => { s with data, calls := s.calls + 1 }
  | .commit io =>
    let r := fgdsCommit o io s.data
    { s with data := r.data, executed := s.executed ++ r.executed }
  | .getevents min =>
    let (n, data) := fgdsGetevents s.data min
    { s with
      data, reported := s.reported ++ ((List.range n).map (fgdsEvent data)).reduceOption }

/-- Commits succeed. -/
def engine (o : Options) : System State Call where
  init := ⟨fgdsInit o, 0, [], [], [], []⟩
  step := State.step o
  possible s
    | .commit io => 0 ≤ (fgdsCommit o io s.data).ret
    | _ => True

/-- Every accepted `io_u` is executed once, unless it is still queued, and every executed
one is reported once, unless it is an event that is not collected yet. -/
structure EachOnce (s : State) : Prop where
  executed : ∀ u ∈ s.accepted, s.executed.count u + s.data.batch.count u = 1
  reported : ∀ u ∈ s.executed, s.reported.count u + s.data.uncollected.count u = 1

/-- `fgds_queue` is called when all events have been collected, or refuses. -/
def Collected (o : Options) (s : State) : Call → Prop
  | .queue ddir => s.data.events = 0 ∨ (fgdsQueue o s.data ⟨s.calls, ddir⟩).1 = .busy
  | _ => True

/-! ## One call -/

section Calls

variable {o : Options} {sd : FgdsData} {s : State} {u : IoU}

theorem fgdsQueue_cases (o : Options) (sd : FgdsData) (u : IoU) :
    fgdsQueue o sd u = (.busy, sd) ∨
      fgdsQueue o sd u = (.queued sd.queued, { sd.push u with lastDdir := u.ddir }) ∧
        (sd.queued = 0 ∨ u.ddir = sd.lastDdir ∧ sd.queued ≠ o.iodepth) := by
  unfold fgdsQueue
  split
  · split
    · exact .inl rfl
    · next hq => exact .inr ⟨rfl, .inl (not_not.mp hq)⟩
  · next hd =>
    have hd : u.ddir = sd.lastDdir := not_not.mp hd
    split
    · exact .inl rfl
    · next hq => exact .inr ⟨by rw [hd]; rfl, .inr ⟨hd, hq⟩⟩

theorem commitLoop_ok {res : IoU → Int} {l : List IoU} (h : 0 ≤ (commitLoop res l).1) :
    (commitLoop res l).2 = l := by
  induction l with
  | nil => rfl
  | cons u rest ih =>
    unfold commitLoop at h ⊢
    split at h
    · omega
    · next hu => simp only [hu, if_false, ih h]

theorem backendCommit_ok {io : Io} (h : 0 ≤ (backendCommit o io sd).1) :
    (backendCommit o io sd).2 = sd.batch := by
  unfold backendCommit at h ⊢
  split_ifs at h ⊢
  · unfold fgdsIouringCommit at h ⊢
    dsimp only at h ⊢
    split_ifs at h ⊢ with hprep hsub hwait
    · exact absurd h (Int.not_le.mpr hprep)
    · exact absurd h (Int.not_le.mpr hsub)
    · exact absurd h (Int.not_le.mpr hwait)
    · exact commitLoop_ok (Int.not_lt.mp hprep)
  · exact commitLoop_ok h
  · exact commitLoop_ok h

/-- A commit that succeeds executes the batch and makes it the list of events; without a
batch it leaves the events alone. -/
theorem commit_executes {io : Io} (h : 0 ≤ (fgdsCommit o io sd).ret) :
    (fgdsCommit o io sd).executed = sd.batch ∧
      (fgdsCommit o io sd).data =
        { sd with events := if sd.queued = 0 then sd.events else sd.queued, queued := 0 } := by
  unfold fgdsCommit at h ⊢
  by_cases hq : sd.queued = 0
  · have hbatch : sd.batch = [] := by simp [FgdsData.batch, hq]
    simp only [hq, if_true, hbatch, true_and]
    rw [← hq]
  · simp only [hq, if_false] at h ⊢
    split at h
    · next hneg => exact absurd h (Int.not_le.mpr hneg)
    · next hok =>
      rw [if_neg hok]
      exact ⟨backendCommit_ok (Int.not_lt.mp hok), rfl⟩

theorem push_batch (h : sd.queued < sd.ioUs.length) : (sd.push u).batch = sd.batch ++ [u] := by
  have htake : (sd.ioUs.set sd.queued (some u)).take (sd.queued + 1) =
      sd.ioUs.take sd.queued ++ [some u] := by
    rw [List.take_add_one, List.take_set_of_le (Nat.le_refl _)]
    simp [h]
  simp only [FgdsData.batch, FgdsData.push, htake, List.reduceOption_append]
  rfl

theorem mem_push_uncollected {w : IoU} (h : w ∈ (sd.push u).uncollected) :
    w ∈ sd.uncollected ∨ w = u := by
  simp only [FgdsData.uncollected, FgdsData.push, List.reduceOption_mem_iff, List.take_set] at h ⊢
  rcases List.mem_or_eq_of_mem_set h with hold | hnew
  · exact .inl hold
  · exact .inr (Option.some.inj hnew)

/-- The events that fio collects. -/
theorem events_collected (h : sd.events ≤ sd.ioUs.length) :
    ((List.range sd.events).map (fgdsEvent { sd with events := 0 })).reduceOption =
      sd.uncollected := by
  have htake : (List.range sd.events).map (fgdsEvent { sd with events := 0 }) =
      sd.ioUs.take sd.events := by
    apply List.ext_getElem
    · simp [h]
    · intro i hi hi'
      have hlt : i < sd.ioUs.length := by
        rw [List.length_take] at hi'
        omega
      simp [fgdsEvent, hlt]
  rw [htake]
  rfl

end Calls

/-! ## What a call does -/

/-- `fgds_queue` has accepted an `io_u`. -/
def State.accept (s : State) (u : IoU) : State :=
  { s with
    data := { s.data.push u with lastDdir := u.ddir }
    calls := u.number + 1
    accepted := s.accepted ++ [u]
    written := s.written ++ [s.data.queued] }

/-- The batch has been executed. -/
def State.commit (s : State) : State :=
  { s with
    data := { s.data with events := s.data.queued, queued := 0 }
    executed := s.executed ++ s.data.batch }

/-- The events have been collected. -/
def State.collect (s : State) : State :=
  { s with
    data := { s.data with events := 0 }
    reported := s.reported ++ s.data.uncollected }

section Steps

variable {o : Options} {s : State}

theorem step_queue (o : Options) (s : State) (ddir : Ddir) :
    (fgdsQueue o s.data ⟨s.calls, ddir⟩).1 = .busy ∧
        s.step o (.queue ddir) = { s with calls := s.calls + 1 } ∨
      (fgdsQueue o s.data ⟨s.calls, ddir⟩).1 ≠ .busy ∧
        s.step o (.queue ddir) = s.accept ⟨s.calls, ddir⟩ ∧
        (s.data.queued = 0 ∨ ddir = s.data.lastDdir ∧ s.data.queued ≠ o.iodepth) := by
  rcases fgdsQueue_cases o s.data ⟨s.calls, ddir⟩ with hbusy | ⟨hok, hroom⟩
  · refine .inl ⟨by rw [hbusy], ?_⟩
    simp only [State.step, hbusy]
  · refine .inr ⟨by rw [hok]; simp, ?_, hroom⟩
    simp only [State.step, hok]
    rfl

theorem step_commit {io : Io} (h : 0 ≤ (fgdsCommit o io s.data).ret) :
    s.step o (.commit io) = s ∨ s.data.queued ≠ 0 ∧ s.step o (.commit io) = s.commit := by
  obtain ⟨hexec, hdata⟩ := commit_executes h
  by_cases hq : s.data.queued = 0
  · have hbatch : s.data.batch = [] := by simp [FgdsData.batch, hq]
    left
    simp only [State.step, hexec, hdata, hbatch, hq, if_true, List.append_nil]
    rw [← hq]
  · right
    simp only [State.step, hexec, hdata, hq, if_false]
    exact ⟨hq, rfl⟩

theorem step_getevents (h : s.data.events ≤ s.data.ioUs.length) (min : Nat) :
    s.step o (.getevents min) = s ∨ s.step o (.getevents min) = s.collect := by
  by_cases hmin : min = 0
  · left
    simp [State.step, fgdsGetevents, hmin]
  · right
    simp only [State.step, fgdsGetevents, hmin, ne_eq, not_false_eq_true, if_true,
      events_collected h]
    rfl

/-! ## Every sequence of calls -/

/-- The indices written are in range, and a batch has one direction. -/
structure Bounded (o : Options) (s : State) : Prop where
  size : s.data.ioUs.length = o.iodepth
  queued : s.data.queued ≤ o.iodepth
  events : s.data.events ≤ o.iodepth
  written : ∀ i ∈ s.written, i < o.iodepth
  batch : ∀ x ∈ s.data.ioUs.take s.data.queued, ∃ u, x = some u ∧ u.ddir = s.data.lastDdir
  pending : ∀ x ∈ s.data.ioUs.take s.data.events, x ≠ none

theorem bounded_init (o : Options) : Bounded o (engine o).init := by
  constructor <;> simp [engine, fgdsInit]

/-- An `io_u` is accepted when there is a place for it. -/
theorem Bounded.room (h : Bounded o s) {ddir : Ddir}
    (hroom : s.data.queued = 0 ∨ ddir = s.data.lastDdir ∧ s.data.queued ≠ o.iodepth)
    (hd : 1 ≤ o.iodepth) : s.data.queued < s.data.ioUs.length := by
  have hqueued := h.queued
  have hsize := h.size
  omega

theorem Bounded.accept (h : Bounded o s) {u : IoU}
    (hroom : s.data.queued = 0 ∨ u.ddir = s.data.lastDdir ∧ s.data.queued ≠ o.iodepth)
    (hd : 1 ≤ o.iodepth) : Bounded o (s.accept u) := by
  have hlt : s.data.queued < o.iodepth := h.size ▸ h.room hroom hd
  refine ⟨by simp [State.accept, FgdsData.push, h.size], hlt, h.events, ?_, ?_, ?_⟩
  · intro i hi
    rcases List.mem_append.mp hi with hold | hnew
    · exact h.written i hold
    · rw [List.mem_singleton.mp hnew]
      exact hlt
  · intro x hx
    simp only [State.accept, FgdsData.push] at hx ⊢
    rw [List.take_add_one, List.take_set_of_le (Nat.le_refl _)] at hx
    simp only [List.getElem?_set_self (h.size ▸ hlt), Option.toList_some, List.mem_append,
      List.mem_singleton] at hx
    rcases hx with hold | rfl
    · rcases hroom with hempty | ⟨hdir, -⟩
      · simp [hempty] at hold
      · rw [hdir]
        exact h.batch x hold
    · exact ⟨u, rfl, rfl⟩
  · intro x hx
    simp only [State.accept, FgdsData.push, List.take_set] at hx
    rcases List.mem_or_eq_of_mem_set hx with hold | rfl
    · exact h.pending x hold
    · simp

theorem Bounded.step (h : Bounded o s) (hd : 1 ≤ o.iodepth) (c : Call)
    (hp : (engine o).possible s c) : Bounded o (s.step o c) := by
  cases c with
  | queue ddir =>
    rcases step_queue o s ddir with ⟨-, hs⟩ | ⟨-, hs, hroom⟩
    · rw [hs]
      exact { h with }
    · rw [hs]
      exact h.accept hroom hd
  | commit io =>
    rcases step_commit hp with hs | ⟨-, hs⟩
    · rw [hs]
      exact h
    · rw [hs]
      refine ⟨h.size, Nat.zero_le _, h.queued, h.written, by simp [State.commit], ?_⟩
      intro x hx
      obtain ⟨u, rfl, -⟩ := h.batch x hx
      simp
  | getevents min =>
    rcases step_getevents (h.size ▸ h.events) min with hs | hs
    · rw [hs]
      exact h
    · rw [hs]
      exact ⟨h.size, h.queued, Nat.zero_le _, h.written, h.batch, by simp [State.collect]⟩

/-! ## Events that are collected in time -/

/-- In the order of acceptance: what is reported, what waits for `fgds_getevents`, what waits
for `fgds_commit`. -/
structure Kept (s : State) : Prop where
  accepted : s.accepted = s.executed ++ s.data.batch
  executed : s.executed = s.reported ++ s.data.uncollected
  idle : s.data.queued = 0 ∨ s.data.events = 0
  nodup : s.accepted.Nodup
  numbers : ∀ u ∈ s.accepted, u.number < s.calls

theorem kept_init (o : Options) : Kept (engine o).init := by
  constructor <;> simp [engine, fgdsInit, FgdsData.batch, FgdsData.uncollected]

/-- The `io_u` of an earlier call is not the one of this call. -/
theorem ne_of_earlier {u : IoU} (h : u.number < s.calls) (ddir : Ddir) : u ≠ ⟨s.calls, ddir⟩ := by
  rintro rfl
  exact Nat.lt_irrefl _ h

theorem Kept.eachOnce (h : Kept s) : EachOnce s := by
  constructor
  · intro u hu
    rw [← List.count_append, ← h.accepted]
    exact List.count_eq_one_of_mem h.nodup hu
  · intro u hu
    have hnodup : s.executed.Nodup := List.Nodup.of_append_left (h.accepted ▸ h.nodup)
    rw [← List.count_append, ← h.executed]
    exact List.count_eq_one_of_mem hnodup hu

theorem Kept.step (h : Kept s) (hb : Bounded o s) (hd : 1 ≤ o.iodepth) (c : Call)
    (hp : (engine o).possible s c) (hc : Collected o s c) : Kept (s.step o c) := by
  cases c with
  | queue ddir =>
    rcases step_queue o s ddir with ⟨-, hs⟩ | ⟨hnot, hs, hroom⟩
    · rw [hs]
      exact { h with numbers := fun u hu => Nat.lt_succ_of_lt (h.numbers u hu) }
    · have hev : s.data.events = 0 := hc.resolve_right hnot
      have hlt := hb.room hroom hd
      have hnone : s.data.uncollected = [] := by simp [FgdsData.uncollected, hev]
      rw [hs]
      refine ⟨?_, ?_, .inr hev, ?_, ?_⟩
      · show s.accepted ++ [_] = s.executed ++ (s.data.push _).batch
        rw [push_batch hlt, h.accepted, List.append_assoc]
      · have hnone' : (s.data.push ⟨s.calls, ddir⟩).uncollected = [] := by
          simp [FgdsData.uncollected, FgdsData.push, hev]
        show s.executed = s.reported ++ (s.data.push _).uncollected
        rw [hnone', h.executed, hnone]
      · refine List.nodup_append.mpr ⟨h.nodup, List.nodup_singleton _, ?_⟩
        rintro u hu v hv rfl
        exact ne_of_earlier (h.numbers u hu) ddir (List.mem_singleton.mp hv)
      · intro u hu
        rcases List.mem_append.mp hu with hold | hnew
        · exact Nat.lt_succ_of_lt (h.numbers u hold)
        · rw [List.mem_singleton.mp hnew]
          exact Nat.lt_succ_self _
  | commit io =>
    rcases step_commit hp with hs | ⟨hq, hs⟩
    · rw [hs]
      exact h
    · have hev : s.data.events = 0 := h.idle.resolve_left hq
      have hnone : s.data.uncollected = [] := by simp [FgdsData.uncollected, hev]
      rw [hs]
      refine ⟨?_, ?_, .inl rfl, h.nodup, h.numbers⟩
      · show s.accepted = (s.executed ++ s.data.batch) ++ _
        rw [h.accepted]
        simp [FgdsData.batch, State.commit]
      · show s.executed ++ s.data.batch = s.reported ++ s.data.batch
        rw [h.executed, hnone, List.append_nil]
  | getevents min =>
    rcases step_getevents (hb.size ▸ hb.events) min with hs | hs
    · rw [hs]
      exact h
    · rw [hs]
      refine ⟨h.accepted, ?_, .inr rfl, h.nodup, h.numbers⟩
      show s.executed = (s.reported ++ s.data.uncollected) ++ _
      rw [h.executed]
      simp [FgdsData.uncollected, State.collect]

/-! ## Events that are not -/

/-- An executed `io_u` that has not been reported and is in neither part of the array. -/
structure Lost (s : State) (u : IoU) : Prop where
  executed : u ∈ s.executed
  reported : u ∉ s.reported
  batch : u ∉ s.data.batch
  uncollected : u ∉ s.data.uncollected
  number : u.number < s.calls

theorem Lost.not_eachOnce {u : IoU} (h : Lost s u) : ¬ EachOnce s := by
  intro hs
  have hone := hs.reported u h.executed
  rw [List.count_eq_zero.mpr h.reported, List.count_eq_zero.mpr h.uncollected] at hone
  cases hone

/-- It is never reported. -/
theorem Lost.step {u : IoU} (h : Lost s u) (hb : Bounded o s) (hd : 1 ≤ o.iodepth) (c : Call)
    (hp : (engine o).possible s c) : Lost (s.step o c) u := by
  cases c with
  | queue ddir =>
    rcases step_queue o s ddir with ⟨-, hs⟩ | ⟨-, hs, hroom⟩
    · rw [hs]
      exact { h with number := Nat.lt_succ_of_lt h.number }
    · have hlt := hb.room hroom hd
      have hne := ne_of_earlier h.number ddir
      rw [hs]
      refine ⟨h.executed, h.reported, ?_, ?_, Nat.lt_succ_of_lt h.number⟩
      · show u ∉ (s.data.push _).batch
        rw [push_batch hlt, List.mem_append, List.mem_singleton]
        exact not_or.mpr ⟨h.batch, hne⟩
      · show u ∉ (s.data.push _).uncollected
        intro hu
        rcases mem_push_uncollected hu with hold | hnew
        · exact h.uncollected hold
        · exact hne hnew
  | commit io =>
    rcases step_commit hp with hs | ⟨-, hs⟩
    · rw [hs]
      exact h
    · rw [hs]
      exact ⟨List.mem_append_left _ h.executed, h.reported, by simp [State.commit, FgdsData.batch],
        h.batch, h.number⟩
  | getevents min =>
    rcases step_getevents (hb.size ▸ hb.events) min with hs | hs
    · rw [hs]
      exact h
    · rw [hs]
      refine ⟨h.executed, ?_, h.batch, by simp [State.collect, FgdsData.uncollected], h.number⟩
      show u ∉ s.reported ++ s.data.uncollected
      rw [List.mem_append]
      exact not_or.mpr ⟨h.reported, h.uncollected⟩

/-- The first `io_u` that is accepted too early takes the place of the first event. -/
theorem Kept.lost (h : Kept s) (hb : Bounded o s) (c : Call) (hc : ¬ Collected o s c) :
    ∃ u, Lost (s.step o c) u := by
  cases c with
  | queue ddir =>
    obtain ⟨hev, hnot⟩ := not_or.mp hc
    rcases step_queue o s ddir with ⟨hbusy, -⟩ | ⟨-, hs, -⟩
    · exact absurd hbusy hnot
    · have hq : s.data.queued = 0 := h.idle.resolve_right hev
      obtain ⟨n, hn⟩ := Nat.exists_eq_succ_of_ne_zero hev
      -- the array starts with an event
      obtain ⟨u, rest, hvec⟩ : ∃ u rest, s.data.ioUs = some u :: rest := by
        have hsize := hb.size
        have hle := hb.events
        have hpending := hb.pending
        cases hvec : s.data.ioUs with
        | nil =>
          rw [hvec, List.length_nil] at hsize
          omega
        | cons x rest =>
          rw [hvec, hn, List.take_succ_cons] at hpending
          obtain ⟨u, hu⟩ := Option.ne_none_iff_exists'.mp (hpending x List.mem_cons_self)
          exact ⟨u, rest, by rw [hu]⟩
      have hunc : s.data.uncollected = u :: (rest.take n).reduceOption := by
        simp [FgdsData.uncollected, hvec, hn]
      have hexec : s.executed.Nodup := List.Nodup.of_append_left (h.accepted ▸ h.nodup)
      have hmem : u ∈ s.executed := by
        rw [h.executed, hunc]
        simp
      have hnumber : u.number < s.calls :=
        h.numbers u (h.accepted ▸ List.mem_append_left _ hmem)
      have hne := ne_of_earlier hnumber ddir
      rw [h.executed, hunc, List.nodup_append] at hexec
      obtain ⟨-, htail, hdisj⟩ := hexec
      rw [hs]
      refine ⟨u, hmem, fun hu => hdisj u hu u List.mem_cons_self rfl, ?_, ?_,
        Nat.lt_succ_of_lt hnumber⟩
      · simpa [State.accept, FgdsData.push, FgdsData.batch, hq, hvec] using hne
      · have hrest := (List.nodup_cons.mp htail).1
        simp only [State.accept, FgdsData.push, FgdsData.uncollected, hq, hvec, hn,
          List.set_cons_zero, List.take_succ_cons, List.reduceOption_cons_of_some,
          List.mem_cons, not_or]
        exact ⟨hne, hrest⟩
  | commit io => exact absurd trivial hc
  | getevents min => exact absurd trivial hc

end Steps

/-- The calls from `fgds_init` on. -/
def endState (o : Options) (calls : List Call) : State :=
  (engine o).after (engine o).init calls

/-- For any calls of which the commits succeed. -/
theorem completes_once_iff (o : Options) (hd : 1 ≤ o.iodepth) (calls : List Call)
    (hcalls : (engine o).Along (engine o).possible (engine o).init calls) :
    Bounded o (endState o calls) ∧
      (EachOnce (endState o calls) ↔
        (engine o).Along (Collected o) (engine o).init calls) := by
  refine ⟨System.after_along (bounded_init o) (fun s c h hp => h.step hd c hp) hcalls, ?_, ?_⟩
  · intro honce
    by_contra hnot
    obtain ⟨-, u, hu⟩ : Bounded o (endState o calls) ∧ ∃ u, Lost (endState o calls) u := by
      refine System.after_not_along
        (I := fun s => Bounded o s ∧ Kept s) (B := fun s => Bounded o s ∧ ∃ u, Lost s u)
        ⟨bounded_init o, kept_init o⟩ ?_ ?_ ?_ hcalls hnot
      · exact fun s c h hp hc => ⟨h.1.step hd c hp, h.2.step h.1 hd c hp hc⟩
      · exact fun s c h hp hc => ⟨h.1.step hd c hp, h.2.lost h.1 c hc⟩
      · rintro s c ⟨hb, u, hu⟩ hp
        exact ⟨hb.step hd c hp, u, hu.step hb hd c hp⟩
    exact hu.not_eachOnce honce
  · intro hcol
    have hkept : Bounded o (endState o calls) ∧ Kept (endState o calls) := by
      refine System.after_along (I := fun s => Bounded o s ∧ Kept s)
        ⟨bounded_init o, kept_init o⟩ ?_ (hcalls.and hcol)
      exact fun s c h hc => ⟨h.1.step hd c hc.1, h.2.step h.1 hd c hc.1 hc.2⟩
    exact hkept.2.eachOnce

/-- Everything below the engine succeeds. -/
def fineIo : Io := ⟨fun _ _ => 0, 0, 0, fun _ _ => 4096, fun _ _ => 4096, fun _ _ => true⟩

/-- A depth of 2, with `fgds_read` and `fgds_write`. -/
def syncDepthTwo : Options := ⟨2, true, false⟩

/-- Two reads, with a write between them that is refused, are collected before the next
batch. -/
theorem completes_once_two_batches :
    EachOnce (endState syncDepthTwo
      [.queue .read, .queue .write, .queue .read, .commit fineIo, .getevents 1,
        .queue .write, .commit fineIo, .getevents 1]) := by
  refine (completes_once_iff syncDepthTwo (by decide) _ ?_).2.mpr ?_
  · exact ⟨trivial, trivial, trivial, Int.le_refl 0, trivial, trivial, Int.le_refl 0, trivial,
      trivial⟩
  · exact ⟨.inl rfl, .inl rfl, .inl rfl, trivial, trivial, .inl rfl, trivial, trivial, trivial⟩

/-- The second read is queued before the first one is collected: the first is executed,
and what `fgds_event` returns is the second, which has not been. -/
theorem event_overwritten :
    let s := endState syncDepthTwo
      [.queue .read, .commit fineIo, .queue .read, .getevents 1]
    s.executed = [⟨0, .read⟩] ∧ s.reported = [⟨1, .read⟩] ∧ ¬ EachOnce s := by
  refine ⟨by decide, by decide, fun h => ?_⟩
  have hone := h.reported ⟨0, .read⟩ (by decide)
  revert hone
  decide

end Fgds.Fio
