import Fgds.Copier
import Fgds.ThreadedReader

/-!
# The end of a copy

`FgdsFileCopier.wait_io` waits for the reads of `submit_io`, gives the registration back and makes
tensors of the buffer. A read that failed and a registration that failed are only warned about,
and a short count is not looked at.

* `submitLoop_owners`: the reads of a copy have consecutive numbers;
* `wait_io_exact_iff`: `wait_io` clears the copier and gives the registration back in any case, and
  hands out tensors only after a complete load if and only if the load is complete;
* `wait_io_incomplete`: tensors of a file of which one block was read in half.
-/

namespace Fgds.CopierWait

open Fgds.Lib.Runs Fgds.Uring Fgds.Copier Fgds.ThreadedReader

/-! ## The copier -/

/-- `registered_memory`: device, address and size. -/
abbrev Registration := Int × Nat × Nat

/-- `FgdsFileCopier`, with the keys of `copy_reqs`. -/
structure FileCopier where
  registeredMemory : Option Registration
  copyReqs : List Nat

inductive Warning where
  | regmemFailed (result : Int)
  | readFailed (reqId : Nat)
  | deregmemFailed (result : Int)
  deriving DecidableEq

/-- The copier after `submit_io`, where `fgds_regmem` returned `result`. -/
def afterSubmitIo (deviceId : Int) (m : Metadata) (gbufPtr : Nat) (result : Int)
    (reqs : List Req) : FileCopier × List Warning :=
  if result ≠ 0 then (⟨none, reqs.map (·.owner)⟩, [.regmemFailed result])
  else (⟨some (deviceId, gbufPtr, m.alignedLength), reqs.map (·.owner)⟩, [])

/-- `wait_io`: what it returns (`none` would be an exception), the calls of `fgds_deregmem`,
the warnings and the copier. -/
structure WaitIo (τ : Type) where
  returned : Option τ
  deregmem : List Registration
  warnings : List Warning
  copier : FileCopier

/-- The numbers in the order in which they are waited for. -/
def FileCopier.sortedReqs (c : FileCopier) : List Nat := c.copyReqs.mergeSort (· ≤ ·)

/-- `results` are those of `wait_read`, `dereg` is that of `fgds_deregmem`, and `tensors` what
`get_tensors` makes of the buffer. -/
def waitIo {τ : Type} (c : FileCopier) (results : List Int) (dereg : Int) (tensors : τ) :
    WaitIo τ :=
  let failed := (c.sortedReqs.zip results).filter fun r => r.2 < 0
  let released := c.registeredMemory.toList
  let notReleased := if released ≠ [] ∧ dereg ≠ 0 then [.deregmemFailed dereg] else []
  ⟨some tensors, released, failed.map (fun r => .readFailed r.1) ++ notReleased, ⟨none, []⟩⟩

/-- The length that a read of a block has up to the end of the file. The position of the block in
the file, the argument `offset` of `submit_read`, arrives as `bufOffset`. -/
def fullLength (m : Metadata) (r : Req) : Int := min r.size (m.sizeBytes - r.bufOffset.toNat : Nat)

/-- The buffer was registered, and every block was read to its end. -/
def Loaded (m : Metadata) (regmem : Int) (reads : Nat → Option Int) (reqs : List Req) : Prop :=
  regmem = 0 ∧ ∀ r ∈ reqs, countOf reads r.owner = fullLength m r

/-! ## The numbers of the reads -/

theorem submitLoop_owners (fd : Int) (gbufPtr alignedOffset alignedLength maxCopyBlockSize id
    count : Nat) :
    ∃ n, (submitLoop fd gbufPtr alignedOffset alignedLength maxCopyBlockSize id count).map
      (·.owner) = List.range' id n := by
  induction hm : alignedLength - count using Nat.strong_induction_on generalizing id count with
  | _ m ih =>
    rw [submitLoop]
    split
    · next hgo =>
      dsimp only
      obtain ⟨k, hk, hpos⟩ : ∃ k, (if alignedLength - count > maxCopyBlockSize then
          maxCopyBlockSize else alignedLength - count) = k ∧ 0 < k := by
        refine ⟨_, rfl, ?_⟩
        split <;> omega
      rw [hk]
      obtain ⟨n, hn⟩ := ih (alignedLength - (count + k)) (by omega) (id + 1) (count + k) rfl
      exact ⟨n + 1, by rw [List.map_cons, hn, List.range'_succ]; rfl⟩
    · exact ⟨0, rfl⟩

theorem submitIo_owners_nodup (m : Metadata) (fd : Int) (gbufPtr maxCopyBlockSize id : Nat) :
    ((submitIo m fd gbufPtr maxCopyBlockSize id).map (·.owner)).Nodup := by
  obtain ⟨n, hn⟩ := submitLoop_owners fd gbufPtr m.alignedOffset m.alignedLength maxCopyBlockSize
    id 0
  rw [submitIo, hn]
  exact List.nodup_range'

/-! ## `wait_io` -/

theorem afterSubmitIo_copyReqs (deviceId : Int) (m : Metadata) (gbufPtr : Nat) (result : Int)
    (reqs : List Req) :
    (afterSubmitIo deviceId m gbufPtr result reqs).1.copyReqs = reqs.map (·.owner) := by
  unfold afterSubmitIo
  split <;> rfl

theorem afterSubmitIo_registered (deviceId : Int) (m : Metadata) (gbufPtr : Nat) (result : Int)
    (reqs : List Req) :
    (afterSubmitIo deviceId m gbufPtr result reqs).1.registeredMemory.toList =
      if result = 0 then [(deviceId, gbufPtr, m.alignedLength)] else [] := by
  unfold afterSubmitIo
  split_ifs <;> first | rfl | contradiction

/-- The warnings about reads, if each read gives its own count. -/
theorem readFailed_mem {c : FileCopier} {count : Nat → Int} {dereg : Int} {τ : Type} {tensors : τ}
    (id : Nat) :
    Warning.readFailed id ∈ (waitIo c (c.sortedReqs.map count) dereg tensors).warnings ↔
      id ∈ c.copyReqs ∧ count id < 0 := by
  have hzip : c.sortedReqs.zip (c.sortedReqs.map count) =
      c.sortedReqs.map fun id => (id, count id) := by
    induction c.sortedReqs with
    | nil => rfl
    | cons x xs ih => rw [List.map_cons, List.zip_cons_cons, ih, List.map_cons]
  have hmem : id ∈ c.sortedReqs ↔ id ∈ c.copyReqs := (List.mergeSort_perm _ _).mem_iff
  rw [waitIo, hzip, ← hmem]
  dsimp only
  split_ifs <;> simp

/-- What `wait_io` leaves behind. -/
structure Cleared (m : Metadata) (deviceId : Int) (gbufPtr : Nat) (regmem : Int)
    (reads : Nat → Option Int) (reqs : List Req) {τ : Type} (w : WaitIo τ) (t : State) : Prop where
  /-- The registration is given back, if there is one. -/
  released : w.deregmem = if regmem = 0 then [(deviceId, gbufPtr, m.alignedLength)] else []
  registered : w.copier.registeredMemory = none
  requests : w.copier.copyReqs = []
  /-- The reader has no results of the copy left. -/
  results : ∀ r ∈ reqs, t.reader.results r.owner = none
  /-- The reads that failed are warned about. -/
  warned : ∀ id, .readFailed id ∈ w.warnings ↔ id ∈ reqs.map (·.owner) ∧ countOf reads id < 0

/-- For every file and block size, every state of the reader in which the reads of the copy have
been submitted, every timing and every result. -/
theorem wait_io_exact_iff {maxThreads : Nat} (hpos : 1 ≤ maxThreads) (reads : Nat → Option Int)
    {s t : State} (hrun : Run (readers maxThreads reads) (fun _ _ => True) s)
    (m : Metadata) (fd deviceId : Int) (gbufPtr maxCopyBlockSize id : Nat) (regmem dereg : Int)
    (hsub : ∀ r ∈ submitIo m fd gbufPtr maxCopyBlockSize id,
      r.owner < s.reader.nextId ∧ r.owner ∉ s.waited)
    {results : List Int} {c : FileCopier}
    (hc : c = (afterSubmitIo deviceId m gbufPtr regmem
      (submitIo m fd gbufPtr maxCopyBlockSize id)).1)
    (hwait : Waits maxThreads reads s c.sortedReqs results t) {τ : Type} (tensors : τ) :
    Cleared m deviceId gbufPtr regmem reads (submitIo m fd gbufPtr maxCopyBlockSize id)
        (waitIo c results dereg tensors) t ∧
      (((waitIo c results dereg tensors).returned.isSome ↔
          Loaded m regmem reads (submitIo m fd gbufPtr maxCopyBlockSize id)) ↔
        Loaded m regmem reads (submitIo m fd gbufPtr maxCopyBlockSize id)) := by
  have hreqs : c.copyReqs = (submitIo m fd gbufPtr maxCopyBlockSize id).map (·.owner) := by
    rw [hc, afterSubmitIo_copyReqs]
  have hperm : c.sortedReqs.Perm c.copyReqs := List.mergeSort_perm _ _
  have hnodup : c.sortedReqs.Nodup := by
    rw [hperm.nodup_iff, hreqs]
    exact submitIo_owners_nodup m fd gbufPtr maxCopyBlockSize id
  have howners : ∀ x ∈ c.sortedReqs, x < s.reader.nextId ∧ x ∉ s.waited := by
    intro x hx
    rw [hperm.mem_iff, hreqs] at hx
    obtain ⟨r, hr, rfl⟩ := List.mem_map.mp hx
    exact hsub r hr
  obtain ⟨rfl, ht, hwaited⟩ := waits_counts hwait (exact_of_run hpos hrun) hnodup howners
  refine ⟨⟨?_, rfl, rfl, fun r hr => ?_, fun x => ?_⟩, by simp [waitIo]⟩
  · show c.registeredMemory.toList = _
    rw [hc, afterSubmitIo_registered]
  · have hmem : r.owner ∈ c.sortedReqs := by
      rw [hperm.mem_iff, hreqs]
      exact List.mem_map_of_mem hr
    rw [ht.results, if_neg fun hnot => hnot.2 (hwaited r.owner (.inr hmem))]
  · rw [readFailed_mem, hreqs]

/-- A file of 150000 bytes with a header of 8: three blocks of 64KB, the last one in part behind the
end of the file. -/
def threeBlocks : Metadata := ⟨8, 150000⟩

theorem threeBlocks_reads : submitIo threeBlocks 3 0 65536 0 =
    [⟨3, 0, 0, 65536, 0, 0⟩, ⟨3, 65536, 65536, 65536, 65536, 1⟩,
      ⟨3, 131072, 131072, 65536, 131072, 2⟩] := by
  have hlength : threeBlocks.alignedLength = 196608 := by decide
  have hoffset : threeBlocks.alignedOffset = 0 := by decide
  have hstep : ∀ id count, count + 65536 ≤ 196608 → submitLoop 3 0 0 196608 65536 id count =
      submitRead id 3 (0 + count) (0 + count) 65536 count ::
        submitLoop 3 0 0 196608 65536 (id + 1) (count + 65536) := by
    intro id count hcount
    have hlen : (if 196608 - count > 65536 then 65536 else 196608 - count) = 65536 := by
      split <;> omega
    rw [submitLoop, if_pos (by omega)]
    dsimp only
    rw [hlen]
  rw [submitIo, hlength, hoffset, hstep 0 0 (by decide), hstep 1 _ (by decide),
    hstep 2 _ (by decide), submitLoop, if_neg (by decide)]
  decide

theorem threeBlocks_sortedReqs (result : Int) :
    (afterSubmitIo 0 threeBlocks 0 result (submitIo threeBlocks 3 0 65536 0)).1.sortedReqs =
      [0, 1, 2] := by
  rw [FileCopier.sortedReqs, afterSubmitIo_copyReqs, threeBlocks_reads]
  exact List.mergeSort_eq_self (r := (· ≤ ·)) (by decide)

/-- The last block is read first, and the first one while the second is waited for. -/
def threeReads : List Action := [.submit, .submit, .submit, .finish 2]

/-- Every block is read to its end, with four threads. -/
theorem wait_io_complete :
    let reads : Nat → Option Int := fun id => some (if id = 2 then 18928 else 65536)
    let s := (readers 4 reads).after (readers 4 reads).init threeReads
    let c := (afterSubmitIo 0 threeBlocks 0 0 (submitIo threeBlocks 3 0 65536 0)).1
    ∃ t, Waits 4 reads s c.sortedReqs [65536, 65536, 18928] t ∧
      ((waitIo c [65536, 65536, 18928] 0 ()).returned.isSome ↔
        Loaded threeBlocks 0 reads (submitIo threeBlocks 3 0 65536 0)) := by
  intro reads s c
  have hrun : Run (readers 4 reads) (fun _ _ => True) s := Run.init.after (by decide) (by decide)
  have hsub : ∀ r ∈ submitIo threeBlocks 3 0 65536 0,
      r.owner < s.reader.nextId ∧ r.owner ∉ s.waited := by
    rw [threeBlocks_reads]
    decide
  have hwait : ∃ t, Waits 4 reads s c.sortedReqs [65536, 65536, 18928] t := by
    rw [threeBlocks_sortedReqs]
    exact ⟨_, .finish 0 (by decide) (.wait 0 (by decide) (.finish 1 (by decide)
      (.wait 1 (by decide) (.wait 2 (by decide) (.nil _)))))⟩
  obtain ⟨t, hwait⟩ := hwait
  have hloaded : Loaded threeBlocks 0 reads (submitIo threeBlocks 3 0 65536 0) := by
    rw [Loaded, threeBlocks_reads]
    decide
  exact ⟨t, hwait, (wait_io_exact_iff (by decide) reads hrun threeBlocks 3 0 0 65536 0 0 0 hsub rfl
    hwait ()).2.mpr hloaded⟩

/-- Only half of the second block is read: `wait_io` returns tensors, without a warning. -/
theorem wait_io_incomplete :
    let reads : Nat → Option Int :=
      fun id => some (if id = 2 then 18928 else if id = 1 then 32768 else 65536)
    let s := (readers 4 reads).after (readers 4 reads).init threeReads
    let c := (afterSubmitIo 0 threeBlocks 0 0 (submitIo threeBlocks 3 0 65536 0)).1
    ∃ t, Waits 4 reads s c.sortedReqs [65536, 32768, 18928] t ∧
      (waitIo c [65536, 32768, 18928] 0 ()).returned = some () ∧
      (waitIo c [65536, 32768, 18928] 0 ()).warnings = [] ∧
      ¬ Loaded threeBlocks 0 reads (submitIo threeBlocks 3 0 65536 0) := by
  intro reads s c
  have hwait : ∃ t, Waits 4 reads s c.sortedReqs [65536, 32768, 18928] t := by
    rw [threeBlocks_sortedReqs]
    exact ⟨_, .finish 0 (by decide) (.wait 0 (by decide) (.finish 1 (by decide)
      (.wait 1 (by decide) (.wait 2 (by decide) (.nil _)))))⟩
  obtain ⟨t, hwait⟩ := hwait
  refine ⟨t, hwait, rfl, ?_, fun h => ?_⟩
  · rw [waitIo, threeBlocks_sortedReqs]
    rfl
  · rw [Loaded, threeBlocks_reads] at h
    exact absurd h (by decide)

end Fgds.CopierWait
