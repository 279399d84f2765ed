import Mathlib.Tactic
import Fgds.Lib.Runs

/-!
# The threaded reader

`fgds_file_reader` of the copier: `submit_read` starts a thread for each read, in one of
`max_threads` slots, after joining the thread that was there; `wait_read` joins the thread in
the slot of its read, which may be the thread of another one, and takes the result out of a map.
Threads finish in any order, at any time; a call that joins a thread returns when it has
finished.

* `Exact`: which threads are in the slots, in the map and joined, at any time;
* `Exact.wait_result`: what `wait_read` returns;
* `reader_exact`: for any sequence of calls and any timing;
* `waits_counts`: waiting for several reads gives each of them its own count.
-/

namespace Fgds.ThreadedReader

open Fgds.Lib.Runs

/-! ## The reader -/

/-- `fgds_file_reader`; a thread is named by the number of its read. -/
structure Reader where
  nextId : Nat
  threads : Nat → Option Nat
  results : Nat → Option Int

section Calls

variable (maxThreads : Nat)

def newReader : Reader := ⟨0, fun _ => none, fun _ => none⟩

/-- `submit_read`: the number, the thread that was joined, and the reader. -/
def Reader.submitRead (r : Reader) : Nat × Option Nat × Reader :=
  let id := r.nextId
  let threadIndex := id % maxThreads
  (id, r.threads threadIndex,
    { r with nextId := r.nextId + 1, threads := Function.update r.threads threadIndex (some id) })

/-- `wait_read`: a number that is not in the map gets the default 0. -/
def Reader.waitRead (r : Reader) (id : Nat) : Int × Option Nat × Reader :=
  let threadIndex := id % maxThreads
  ((r.results id).getD 0, r.threads threadIndex,
    { r with
      threads := Function.update r.threads threadIndex none
      results := Function.update r.results id none })

/-- The end of `_thread`; a read that throws counts as -1. -/
def Reader.threadEnd (r : Reader) (id : Nat) (read : Option Int) : Reader :=
  { r with results := Function.update r.results id (some (read.getD (-1))) }

/-- The threads that the destructor joins and deletes. -/
def Reader.destructor (r : Reader) : List Nat := (List.range maxThreads).filterMap r.threads

end Calls

/-! ## Runs -/

/-- The reader, with the threads that have finished, the submitted reads that have been waited
for, and the threads that have been joined and deleted. -/
structure State where
  reader : Reader
  finished : List Nat
  waited : List Nat
  joined : List Nat
  destroyed : Bool

inductive Action where
  | submit
  | wait (id : Nat)
  | finish (id : Nat)
  | destroy

/-- A thread has been started and has not finished. -/
def State.Runs (s : State) (id : Nat) : Prop := id < s.reader.nextId ∧ id ∉ s.finished

instance (s : State) (id : Nat) : Decidable (s.Runs id) := inferInstanceAs (Decidable (_ ∧ _))

/-- The thread in a slot, if there is one, has finished: `join` returns. -/
def State.Joinable (s : State) (slot : Nat) : Prop :=
  ∀ id ∈ s.reader.threads slot, id ∈ s.finished

section System

variable (maxThreads : Nat) (reads : Nat → Option Int)

def State.step (s : State) : Action → State
  | .submit =>
    let (_, old, reader) := s.reader.submitRead maxThreads
    { s with reader, joined := old.toList ++ s.joined }
  | .wait id =>
    let (_, old, reader) := s.reader.waitRead maxThreads id
    { s with
      reader
      waited := if id < s.reader.nextId then id :: s.waited else s.waited
      joined := old.toList ++ s.joined }
  | .finish id =>
    { s with reader := s.reader.threadEnd id (reads id), finished := id :: s.finished }
  | .destroy =>
    { s with
      reader := { s.reader with threads := fun _ => none }
      joined := s.reader.destructor maxThreads ++ s.joined
      destroyed := true }

/-- Calls return when their threads have finished; there are less than `2 ^ 31` reads. -/
def Possible (s : State) : Action → Prop
  | .submit => s.destroyed = false ∧ s.Joinable (s.reader.nextId % maxThreads) ∧
      s.reader.nextId + 1 < 2 ^ 31
  | .wait id => s.destroyed = false ∧ s.Joinable (id % maxThreads)
  | .finish id => s.Runs id
  | .destroy => s.destroyed = false ∧ ∀ slot < maxThreads, s.Joinable slot

instance (s : State) (slot : Nat) : Decidable (s.Joinable slot) :=
  inferInstanceAs (Decidable (∀ _ ∈ s.reader.threads slot, _))

instance (s : State) : ∀ a, Decidable (Possible maxThreads s a)
  | .submit => inferInstanceAs (Decidable (_ ∧ _ ∧ _))
  | .wait _ => inferInstanceAs (Decidable (_ ∧ _))
  | .finish id => inferInstanceAs (Decidable (s.Runs id))
  | .destroy => inferInstanceAs (Decidable (_ ∧ ∀ slot < maxThreads, _))

/-- `reads` is what `FgdsWrapper::read` does for each number: its result, or an exception. -/
def readers : System State Action where
  init := ⟨newReader, [], [], [], false⟩
  step := State.step maxThreads reads
  possible := Possible maxThreads

instance (s : State) (a : Action) : Decidable ((readers maxThreads reads).possible s a) :=
  inferInstanceAs (Decidable (Possible maxThreads s a))

/-- The count that the thread of a read stores. -/
def countOf (id : Nat) : Int := (reads id).getD (-1)

/-- At any time: -/
structure Exact (s : State) : Prop where
  /-- a thread is in its slot, -/
  slots : ∀ slot id, s.reader.threads slot = some id → slot = id % maxThreads ∧ id < s.reader.nextId
  /-- as long as it runs; -/
  running : ∀ id, s.Runs id → s.reader.threads (id % maxThreads) = some id
  finished : s.finished.Nodup ∧ ∀ id ∈ s.finished, id < s.reader.nextId
  /-- the map has the counts that have been stored and not been waited for; -/
  results : ∀ id, s.reader.results id =
    if id ∈ s.finished ∧ id ∉ s.waited then some (countOf reads id) else none
  waited : ∀ id ∈ s.waited, id ∈ s.finished
  /-- every thread is in its slot or has been joined and deleted, once. -/
  joined : ∀ id, s.joined.count id +
      (if s.reader.threads (id % maxThreads) = some id then 1 else 0) =
    if id < s.reader.nextId then 1 else 0
  destroyed : s.destroyed = true → ∀ slot, s.reader.threads slot = none

end System

/-! ## One action -/

section Steps

variable {maxThreads : Nat} {reads : Nat → Option Int} {s : State}

theorem exact_init : Exact maxThreads reads (readers maxThreads reads).init := by
  constructor <;> simp [readers, newReader, State.Runs]

/-- The thread of a slot, as a list, counts for itself. -/
theorem Exact.count_old (h : Exact maxThreads reads s) (slot id : Nat) :
    (s.reader.threads slot).toList.count id =
      if slot = id % maxThreads ∧ s.reader.threads (id % maxThreads) = some id then 1 else 0 := by
  cases hold : s.reader.threads slot with
  | none =>
    split_ifs with hc
    · rw [hc.1, hc.2] at hold
      cases hold
    · rfl
  | some x =>
    obtain ⟨hslot, -⟩ := h.slots slot x hold
    rw [Option.toList_some, List.count_singleton]
    by_cases hx : x = id
    · subst hx
      rw [← hslot, hold]
      simp
    · have hne : ¬ (slot = id % maxThreads ∧ s.reader.threads (id % maxThreads) = some id) := by
        rintro ⟨rfl, hid⟩
        rw [hold] at hid
        exact hx (Option.some.inj hid)
      rw [if_neg hne]
      simp [hx]

/-- When the thread in a slot is joined, it has finished, so no running thread is lost. -/
theorem Exact.running_elsewhere (h : Exact maxThreads reads s) {slot id : Nat}
    (hjoin : s.Joinable slot) (hrun : s.Runs id) : id % maxThreads ≠ slot := by
  rintro rfl
  exact hrun.2 (hjoin id (h.running id hrun))

theorem Exact.submit (h : Exact maxThreads reads s) (halive : s.destroyed = false)
    (hjoin : s.Joinable (s.reader.nextId % maxThreads)) :
    Exact maxThreads reads (s.step maxThreads reads .submit) := by
  have hnew : ∀ slot id, s.reader.threads slot = some id → id ≠ s.reader.nextId :=
    fun slot id hid => Nat.ne_of_lt (h.slots slot id hid).2
  refine ⟨fun slot id hid => ?_, fun id hrun => ?_, ⟨h.finished.1, fun id hid => ?_⟩, h.results,
    h.waited, fun id => ?_, fun hd => absurd (halive.symm.trans hd) (by simp)⟩
  · simp only [State.step, Reader.submitRead] at hid ⊢
    by_cases hslot : slot = s.reader.nextId % maxThreads
    · rw [hslot, Function.update_self] at hid
      obtain rfl := Option.some.inj hid
      exact ⟨hslot, Nat.lt_succ_self _⟩
    · rw [Function.update_of_ne hslot] at hid
      obtain ⟨hat, hlt⟩ := h.slots slot id hid
      exact ⟨hat, Nat.lt_succ_of_lt hlt⟩
  · simp only [State.step, Reader.submitRead]
    obtain ⟨hlt, hnot⟩ : id < s.reader.nextId + 1 ∧ id ∉ s.finished := hrun
    by_cases hid : id = s.reader.nextId
    · rw [hid, Function.update_self]
    · have hold : s.Runs id := ⟨by omega, hnot⟩
      rw [Function.update_of_ne (h.running_elsewhere hjoin hold)]
      exact h.running id hold
  · exact Nat.lt_succ_of_lt (h.finished.2 id hid)
  · have hcount := h.joined id
    show ((s.reader.threads (s.reader.nextId % maxThreads)).toList ++ s.joined).count id +
        (if Function.update s.reader.threads (s.reader.nextId % maxThreads)
          (some s.reader.nextId) (id % maxThreads) = some id then 1 else 0) =
      if id < s.reader.nextId + 1 then 1 else 0
    rw [List.count_append, h.count_old]
    by_cases hid : id = s.reader.nextId
    · subst hid
      have hnone : s.reader.threads (s.reader.nextId % maxThreads) ≠ some s.reader.nextId :=
        fun hself => hnew _ _ hself rfl
      simp only [hnone, and_false, if_false, Function.update_self, if_true, Nat.lt_irrefl,
        Nat.lt_succ_self] at hcount ⊢
      omega
    · have hiff : id < s.reader.nextId + 1 ↔ id < s.reader.nextId := by omega
      rw [if_congr hiff rfl rfl, ← hcount]
      by_cases hslot : id % maxThreads = s.reader.nextId % maxThreads
      · rw [hslot, Function.update_self]
        simp only [true_and, Option.some.injEq, Ne.symm hid, if_false]
        omega
      · rw [Function.update_of_ne hslot]
        simp only [Ne.symm hslot, false_and, if_false]
        omega

theorem Exact.wait (h : Exact maxThreads reads s) {id : Nat} (halive : s.destroyed = false)
    (hjoin : s.Joinable (id % maxThreads)) :
    Exact maxThreads reads (s.step maxThreads reads (.wait id)) := by
  -- a read that has been submitted has finished by now
  have hdone : id < s.reader.nextId → id ∈ s.finished := by
    intro hlt
    by_contra hnot
    exact h.running_elsewhere hjoin ⟨hlt, hnot⟩ rfl
  refine ⟨fun slot x hx => ?_, fun x hrun => ?_, h.finished, fun x => ?_, fun x hx => ?_,
    fun x => ?_, fun hd => absurd (halive.symm.trans hd) (by simp)⟩
  · simp only [State.step, Reader.waitRead] at hx ⊢
    by_cases hslot : slot = id % maxThreads
    · rw [hslot, Function.update_self] at hx
      cases hx
    · rw [Function.update_of_ne hslot] at hx
      exact h.slots slot x hx
  · simp only [State.step, Reader.waitRead]
    rw [Function.update_of_ne (h.running_elsewhere hjoin hrun)]
    exact h.running x hrun
  · show Function.update s.reader.results id none x =
      if x ∈ s.finished ∧ x ∉ (if id < s.reader.nextId then id :: s.waited else s.waited) then
        some (countOf reads x) else none
    by_cases hx : x = id
    · subst hx
      rw [Function.update_self, if_neg]
      rintro ⟨hfin, hnot⟩
      rw [if_pos (h.finished.2 x hfin)] at hnot
      exact hnot List.mem_cons_self
    · rw [Function.update_of_ne hx, h.results]
      split_ifs <;> simp_all
  · show x ∈ s.finished
    simp only [State.step] at hx
    split_ifs at hx with hlt
    · rcases List.mem_cons.mp hx with rfl | hold
      · exact hdone hlt
      · exact h.waited x hold
    · exact h.waited x hx
  · have hcount := h.joined x
    show ((s.reader.threads (id % maxThreads)).toList ++ s.joined).count x +
        (if Function.update s.reader.threads (id % maxThreads) none (x % maxThreads) = some x
          then 1 else 0) = if x < s.reader.nextId then 1 else 0
    rw [List.count_append, h.count_old, ← hcount]
    by_cases hslot : x % maxThreads = id % maxThreads
    · rw [hslot, Function.update_self]
      simp only [true_and, reduceCtorEq, if_false]
      omega
    · rw [Function.update_of_ne hslot]
      simp only [Ne.symm hslot, false_and, if_false]
      omega

theorem Exact.finish (h : Exact maxThreads reads s) {id : Nat} (hrun : s.Runs id) :
    Exact maxThreads reads (s.step maxThreads reads (.finish id)) := by
  refine ⟨h.slots, fun x hx => ?_, ⟨List.nodup_cons.mpr ⟨hrun.2, h.finished.1⟩, fun x hx => ?_⟩,
    fun x => ?_, fun x hx => List.mem_cons_of_mem _ (h.waited x hx), h.joined,
    h.destroyed⟩
  · obtain ⟨hlt, hnot⟩ : x < s.reader.nextId ∧ x ∉ id :: s.finished := hx
    exact h.running x ⟨hlt, fun hfin => hnot (List.mem_cons_of_mem _ hfin)⟩
  · rcases List.mem_cons.mp hx with rfl | hold
    · exact hrun.1
    · exact h.finished.2 x hold
  · show Function.update s.reader.results id (some (countOf reads id)) x =
      if x ∈ id :: s.finished ∧ x ∉ s.waited then some (countOf reads x) else none
    by_cases hx : x = id
    · subst hx
      have hnot : x ∉ s.waited := fun hw => hrun.2 (h.waited x hw)
      rw [Function.update_self, if_pos ⟨List.mem_cons_self, hnot⟩]
    · rw [Function.update_of_ne hx, h.results]
      simp only [List.mem_cons, hx, false_or]

/-- The destructor joins the threads that are in the slots. -/
theorem Exact.count_destructor (h : Exact maxThreads reads s) (hpos : 1 ≤ maxThreads) (id : Nat) :
    (s.reader.destructor maxThreads).count id =
      if s.reader.threads (id % maxThreads) = some id then 1 else 0 := by
  rw [Reader.destructor, List.count_filterMap]
  split_ifs with hid
  · -- the only slot with this thread is its own
    have hone : ∀ slot ∈ List.range maxThreads,
        (s.reader.threads slot == some id) = true ↔ (slot == id % maxThreads) = true := by
      intro slot _
      rw [beq_iff_eq, beq_iff_eq]
      refine ⟨fun hx => (h.slots slot id hx).1, fun hx => ?_⟩
      rw [hx, hid]
    rw [List.countP_congr hone]
    exact List.count_eq_one_of_mem List.nodup_range
      (List.mem_range.mpr (Nat.mod_lt _ hpos))
  · rw [List.countP_eq_zero]
    intro slot _ hx
    rw [beq_iff_eq] at hx
    rw [(h.slots slot id hx).1] at hx
    exact hid hx

theorem Exact.destroy (h : Exact maxThreads reads s) (hpos : 1 ≤ maxThreads)
    (hjoin : ∀ slot < maxThreads, s.Joinable slot) :
    Exact maxThreads reads (s.step maxThreads reads .destroy) := by
  refine ⟨fun slot id hid => ?_, fun id hrun => ?_, h.finished, h.results, h.waited,
    fun id => ?_, fun _ _ => rfl⟩
  · cases hid
  · exact absurd rfl (h.running_elsewhere (hjoin _ (Nat.mod_lt id hpos)) hrun)
  · have hcount := h.joined id
    show (s.reader.destructor maxThreads ++ s.joined).count id + 0 = _
    rw [List.count_append, h.count_destructor hpos]
    show _ = if id < s.reader.nextId then 1 else 0
    omega

theorem Exact.step (h : Exact maxThreads reads s) (hpos : 1 ≤ maxThreads) {a : Action}
    (hp : Possible maxThreads s a) : Exact maxThreads reads (s.step maxThreads reads a) := by
  cases a with
  | submit => exact h.submit hp.1 hp.2.1
  | wait id => exact h.wait hp.1 hp.2
  | finish id => exact h.finish hp
  | destroy => exact h.destroy hpos hp.2

/-! ## What the calls do -/

/-- A read that has been submitted and has not been waited for gives its own count. -/
theorem Exact.wait_result (h : Exact maxThreads reads s) {id : Nat}
    (hjoin : s.Joinable (id % maxThreads)) (hlt : id < s.reader.nextId) (hnot : id ∉ s.waited) :
    (s.reader.waitRead maxThreads id).1 = countOf reads id := by
  have hdone : id ∈ s.finished := by
    by_contra hrun
    exact h.running_elsewhere hjoin ⟨hlt, hrun⟩ rfl
  show (s.reader.results id).getD 0 = countOf reads id
  rw [h.results, if_pos ⟨hdone, hnot⟩, Option.getD_some]

/-- Running threads have slots of their own. -/
theorem Exact.running_le (h : Exact maxThreads reads s) (hpos : 1 ≤ maxThreads) :
    ((Finset.range s.reader.nextId).filter s.Runs).card ≤ maxThreads := by
  rw [← Finset.card_range maxThreads]
  refine Finset.card_le_card_of_injOn (· % maxThreads) (fun id _ => ?_) ?_
  · exact Finset.mem_coe.mpr (Finset.mem_range.mpr (Nat.mod_lt _ hpos))
  · intro x hx y hy hxy
    have hx' := h.running x (Finset.mem_filter.mp hx).2
    have hy' := h.running y (Finset.mem_filter.mp hy).2
    rw [show x % maxThreads = y % maxThreads from hxy, hy'] at hx'
    exact (Option.some.inj hx').symm

/-- Threads finish in any order. -/
theorem finish_several (maxThreads : Nat) (reads : Nat → Option Int) {ids : List Nat}
    (hnodup : ids.Nodup) (hrun : ∀ id ∈ ids, s.Runs id) :
    (readers maxThreads reads).Along (Possible maxThreads) s (ids.map .finish) ∧
      ((readers maxThreads reads).after s (ids.map .finish)).reader.threads = s.reader.threads ∧
      ∀ id, id ∈ s.finished ∨ id ∈ ids →
        id ∈ ((readers maxThreads reads).after s (ids.map .finish)).finished := by
  induction ids generalizing s with
  | nil => exact ⟨trivial, rfl, fun id hid => hid.resolve_right (by simp)⟩
  | cons x ids ih =>
    obtain ⟨hnot, hnodup⟩ := List.nodup_cons.mp hnodup
    have hnext : ∀ id ∈ ids, (s.step maxThreads reads (.finish x)).Runs id := by
      intro id hid
      obtain ⟨hlt, hfin⟩ := hrun id (List.mem_cons_of_mem _ hid)
      refine ⟨hlt, fun hmem => ?_⟩
      rcases List.mem_cons.mp hmem with rfl | hold
      · exact hnot hid
      · exact hfin hold
    obtain ⟨halong, hthreads, hfinished⟩ := ih hnodup hnext
    refine ⟨⟨hrun x List.mem_cons_self, halong⟩, hthreads, fun id hid => ?_⟩
    refine hfinished id ?_
    rcases hid with hold | hnew
    · exact .inl (List.mem_cons_of_mem _ hold)
    · rcases List.mem_cons.mp hnew with rfl | hlater
      · exact .inl List.mem_cons_self
      · exact .inr hlater

/-- When all threads have finished, all of them can be joined. -/
theorem Exact.finish_all (h : Exact maxThreads reads s) :
    ∃ ids : List Nat,
      (readers maxThreads reads).Along (Possible maxThreads) s (ids.map .finish) ∧
      ∀ slot, ((readers maxThreads reads).after s (ids.map .finish)).Joinable slot := by
  refine ⟨(List.range s.reader.nextId).filter (s.Runs ·), ?_⟩
  have hrun : ∀ id ∈ (List.range s.reader.nextId).filter (s.Runs ·), s.Runs id := by simp
  obtain ⟨halong, hthreads, hfinished⟩ :=
    finish_several maxThreads reads (List.nodup_range.filter (s.Runs ·)) hrun
  refine ⟨halong, fun slot id hid => hfinished id ?_⟩
  rw [hthreads] at hid
  have hlt := (h.slots slot id hid).2
  by_cases hfin : id ∈ s.finished
  · exact .inl hfin
  · exact .inr (List.mem_filter.mpr ⟨List.mem_range.mpr hlt, by simp [State.Runs, hlt, hfin]⟩)

theorem Exact.joined_once (h : Exact maxThreads reads s) (id : Nat) :
    s.joined.count id ≤ 1 ∧ (id ∈ s.joined → id ∈ s.finished) := by
  have hcount := h.joined id
  refine ⟨by split_ifs at hcount <;> omega, fun hmem => ?_⟩
  have hpos := List.count_pos_iff.mpr hmem
  by_contra hnot
  by_cases hlt : id < s.reader.nextId
  · rw [if_pos (h.running id ⟨hlt, hnot⟩), if_pos hlt] at hcount
    omega
  · rw [if_neg hlt] at hcount
    omega

end Steps

/-! ## Waiting for several reads -/

/-- Calls of `wait_read` one after the other, with their results, while threads finish. -/
inductive Waits (maxThreads : Nat) (reads : Nat → Option Int) :
    State → List Nat → List Int → State → Prop
  | nil (s : State) : Waits maxThreads reads s [] [] s
  | finish {s t : State} {ids : List Nat} {results : List Int} (id : Nat) (hrun : s.Runs id)
      (rest : Waits maxThreads reads (s.step maxThreads reads (.finish id)) ids results t) :
      Waits maxThreads reads s ids results t
  | wait {s t : State} {ids : List Nat} {results : List Int} (id : Nat)
      (hp : Possible maxThreads s (.wait id))
      (rest : Waits maxThreads reads (s.step maxThreads reads (.wait id)) ids results t) :
      Waits maxThreads reads s (id :: ids) ((s.reader.waitRead maxThreads id).1 :: results) t

/-- Each read gives its own count, and nothing is left of it in the map. -/
theorem waits_counts {maxThreads : Nat} {reads : Nat → Option Int} {s t : State}
    {ids : List Nat} {results : List Int} (hw : Waits maxThreads reads s ids results t)
    (h : Exact maxThreads reads s) (hnodup : ids.Nodup)
    (hids : ∀ id ∈ ids, id < s.reader.nextId ∧ id ∉ s.waited) :
    results = ids.map (countOf reads) ∧ Exact maxThreads reads t ∧
      ∀ id, id ∈ s.waited ∨ id ∈ ids → id ∈ t.waited := by
  induction hw with
  | nil s => exact ⟨rfl, h, fun id hid => hid.resolve_right (by simp)⟩
  | finish id hrun rest ih => exact ih (h.finish hrun) hnodup hids
  | @wait s t ids results id hp rest ih =>
    obtain ⟨hnot, hnodup⟩ := List.nodup_cons.mp hnodup
    obtain ⟨hlt, hfirst⟩ := hids id List.mem_cons_self
    have hwaited : (s.step maxThreads reads (.wait id)).waited = id :: s.waited := if_pos hlt
    have hnext : ∀ x ∈ ids, x < s.reader.nextId ∧
        x ∉ (s.step maxThreads reads (.wait id)).waited := by
      intro x hx
      obtain ⟨hxlt, hxnot⟩ := hids x (List.mem_cons_of_mem _ hx)
      refine ⟨hxlt, ?_⟩
      rw [hwaited, List.mem_cons, not_or]
      exact ⟨fun heq => hnot (heq ▸ hx), hxnot⟩
    obtain ⟨hresults, hexact, hall⟩ := ih (h.wait hp.1 hp.2) hnodup hnext
    refine ⟨?_, hexact, fun x hx => hall x ?_⟩
    · rw [List.map_cons, hresults, h.wait_result hp.2 hlt hfirst]
    · rw [hwaited, List.mem_cons]
      rcases hx with hold | hnew
      · exact .inl (.inr hold)
      · exact (List.mem_cons.mp hnew).imp_left .inl

/-! ## Any calls, any timing -/

/-- What holds at any time. -/
structure Reliable (maxThreads : Nat) (reads : Nat → Option Int) (s : State) : Prop where
  /-- The first `wait_read` of a submitted read returns its count. -/
  first : ∀ id, id < s.reader.nextId → id ∉ s.waited → Possible maxThreads s (.wait id) →
    (s.reader.waitRead maxThreads id).1 = countOf reads id
  limit : ((Finset.range s.reader.nextId).filter s.Runs).card ≤ maxThreads
  /-- A thread that stores its count overwrites nothing. -/
  stores : ∀ id, Possible maxThreads s (.finish id) → s.reader.results id = none
  /-- A thread is joined and deleted at most once, and after it has finished. -/
  joins : ∀ id, s.joined.count id ≤ 1 ∧ (id ∈ s.joined → id ∈ s.finished)
  /-- In the end all of them have been. -/
  joinsAll : s.destroyed = true → ∀ id < s.reader.nextId, s.joined.count id = 1
  /-- A call that joins threads returns when they have finished. -/
  returns : ∃ ids : List Nat,
    (readers maxThreads reads).Along (Possible maxThreads) s (ids.map .finish) ∧
    ∀ slot, ((readers maxThreads reads).after s (ids.map .finish)).Joinable slot

theorem exact_of_run {maxThreads : Nat} {reads : Nat → Option Int} {s : State}
    (hpos : 1 ≤ maxThreads) (h : Run (readers maxThreads reads) (fun _ _ => True) s) :
    Exact maxThreads reads s :=
  h.inv exact_init fun _ _ hs hp _ => hs.step hpos hp

/-- For every sequence of calls and every timing of the threads. -/
theorem reader_exact {maxThreads : Nat} (hpos : 1 ≤ maxThreads) (reads : Nat → Option Int)
    {s : State} (h : Run (readers maxThreads reads) (fun _ _ => True) s) :
    Reliable maxThreads reads s := by
  have hs := exact_of_run hpos h
  refine ⟨fun id hlt hnot hp => ?_, hs.running_le hpos, fun id hrun => ?_, hs.joined_once,
    fun hd id hlt => ?_, hs.finish_all⟩
  · exact hs.wait_result hp.2 hlt hnot
  · rw [hs.results, if_neg fun hfin => hrun.2 hfin.1]
  · have hcount := hs.joined id
    rw [hs.destroyed hd, if_neg (by simp), if_pos hlt] at hcount
    exact hcount

/-- Two slots, three reads: the third takes the slot of the first, which is waited for after
that. -/
theorem reader_exact_three :
    let reads : Nat → Option Int := fun id => if id = 1 then none else some (4096 * id + 512)
    let s := (readers 2 reads).after (readers 2 reads).init
      [.submit, .submit, .finish 0, .submit, .finish 2]
    (s.reader.waitRead 2 0).1 = 512 ∧ s.Runs 1 := by
  intro reads s
  have hrun : Run (readers 2 reads) (fun _ _ => True) s :=
    Run.init.after (by decide) (by decide)
  exact ⟨(reader_exact (by decide) reads hrun).first 0 (by decide) (by decide) (by decide),
    by decide⟩

end Fgds.ThreadedReader
