import Fgds.Regmem

/-!
# Opening and closing devices

libfgds keeps a context and a flag `fgds_initialized` for each of eight devices.
`fgds_open` opens a character device only while no device is flagged; it sets the flag
of the device it was asked for before it looks at the result. The answers of `open(2)`
are a parameter. `files` records which descriptors libfgds has opened and not closed.

* `OpenInv`: a flagged device is open, unless its last `open(2)` failed;
* `open_tells_iff`: when the return value of `fgds_open` can be trusted, after every history;
* `open_after_failed`: after an `open(2)` that failed, `fgds_open` returns 0 and opens nothing.
-/

namespace Fgds.OpenClose

open Fgds.Device Fgds.Regmem

/-! ## `fgds_open` and `fgds_close` -/

/-- `FGDS_MAX_DEVICES`, the value of `g_device_count`. -/
def fgdsMaxDevices : Nat := 8

/-- `fgds_initialized[id]` and `g_dev_ctx[id]`, without the ring itself and the locks. -/
structure DevCtx where
  flag : Bool
  buffer : MmapBuffer
  uringInit : Bool
  deriving DecidableEq, Repr

/-- The contexts, and the descriptors opened and not closed, each with its device. -/
structure Lib where
  dev : Nat → DevCtx
  files : List (Nat × Int)

/-- The static variables when the library is loaded. -/
def libZero : Lib := ⟨fun _ => ⟨false, ⟨0, 0, false, []⟩, false⟩, []⟩

def Lib.set (lib : Lib) (id : Nat) (c : DevCtx) : Lib :=
  { lib with dev := fun j => if j = id then c else lib.dev j }

def Lib.setFlag (lib : Lib) (id : Nat) (flag : Bool) : Lib :=
  lib.set id { lib.dev id with flag }

/-- `__fgds_close`; `fgds_free_mmap_nodes` frees the nodes and unmaps nothing. -/
def fgdsCloseInner (lib : Lib) (id : Nat) : Int × Lib :=
  let c := lib.dev id
  if ¬ c.buffer.initialized then (-1, lib)
  else
    let files :=
      if c.buffer.devFd > 0 then lib.files.filter fun f => f.2 ≠ c.buffer.devFd else lib.files
    (0, { lib.set id { c with buffer := { c.buffer with head := [] }, uringInit := false } with
      files })

/-- The body shared by `fgds_close_all` and `fgds_close`. -/
def closeFlagged (lib : Lib) (id : Nat) : Lib :=
  if (lib.dev id).flag then (fgdsCloseInner lib id).2.setFlag id false else lib

def fgdsCloseAll (lib : Lib) : Lib := (List.range fgdsMaxDevices).foldl closeFlagged lib

def fgdsClose (lib : Lib) (deviceId : Int) : Int × Lib :=
  if 0 ≤ deviceId ∧ deviceId < fgdsMaxDevices then (0, closeFlagged lib deviceId.toNat)
  else (-1, lib)

section Open

variable (o : Nat → Option Nat)

/-- `__fgds_open`; `o id` is the descriptor that `open(2)` returns, or `none` for -1. -/
def fgdsOpenInner (lib : Lib) (id : Nat) : Int × Lib :=
  let c := lib.dev id
  match o id with
  | none => (-1, lib.set id { c with buffer := { c.buffer with devFd := -1 } })
  | some fd =>
    (0, { lib.set id
        { c with
          buffer := { c.buffer with devFd := fd, head := [], initialized := true }
          uringInit := false } with
      files := (id, (fd : Int)) :: lib.files })

def isFgdsInitialized (lib : Lib) : Bool :=
  (List.range fgdsMaxDevices).any fun id => (lib.dev id).flag

/-- The loop of `fgds_open(-1)`. -/
def openAll : List Nat → Lib → Int × Lib
  | [], lib => (0, lib)
  | id :: rest, lib =>
    if (lib.dev id).flag then openAll rest lib
    else
      let (ret, lib') := fgdsOpenInner o lib id
      if ret < 0 then (ret, fgdsCloseAll lib') else openAll rest (lib'.setFlag id true)

/-- One device: the flag is set whatever the result. -/
def openOne (lib : Lib) (id : Nat) : Int × Lib :=
  if (lib.dev id).flag then (0, lib)
  else
    let (ret, lib') := fgdsOpenInner o lib id
    (ret, lib'.setFlag id true)

/-- `fgds_open`. Only one GPU is initialised; when one is, nothing is done. -/
def fgdsOpen (lib : Lib) (deviceId : Int) : Int × Lib :=
  if isFgdsInitialized lib then (0, lib)
  else if deviceId = -1 then openAll o (List.range fgdsMaxDevices) lib
  else if 0 ≤ deviceId ∧ deviceId < fgdsMaxDevices then openOne o lib deviceId.toNat
  else openOne o lib 0

end Open

/-! ## Histories -/

/-- `open(2)` returns descriptors that are not in use. -/
structure Fresh (o : Nat → Option Nat) (files : List (Nat × Int)) : Prop where
  unused : ∀ id fd, o id = some fd → ∀ f ∈ files, f.2 ≠ (fd : Int)
  inj : ∀ i j fd, o i = some fd → o j = some fd → i = j

/-- Every state after a history of calls, with any answers of `open(2)`. -/
inductive History : Lib → Prop
  | loaded : History libZero
  | opens {lib : Lib} (o : Nat → Option Nat) (d : Int) : History lib → Fresh o lib.files →
      History (fgdsOpen o lib d).2
  | closes {lib : Lib} (d : Int) : History lib → History (fgdsClose lib d).2

/-- The character device was opened by libfgds and has not been closed since. -/
def DeviceOpen (lib : Lib) (d : Nat) : Prop := ∃ fd, (d, fd) ∈ lib.files

/-- What a return value should say: with 0 the device is open, with anything else the flags are as
they were. -/
structure Tells (o : Nat → Option Nat) (lib : Lib) (d : Nat) : Prop where
  success : (fgdsOpen o lib d).1 = 0 → DeviceOpen (fgdsOpen o lib d).2 d
  failure : (fgdsOpen o lib d).1 ≠ 0 →
    ∀ e < fgdsMaxDevices, ((fgdsOpen o lib d).2.dev e).flag = (lib.dev e).flag

/-- The device is flagged although its last `open(2)` failed. -/
def FlaggedFailed (lib : Lib) (d : Nat) : Prop :=
  (lib.dev d).flag = true ∧ (lib.dev d).buffer.devFd = -1

/-- A flagged device is open, unless its last `open(2)` failed. -/
structure OpenInv (lib : Lib) : Prop where
  nodup : (lib.files.map Prod.snd).Nodup
  flagged : ∀ id, (lib.dev id).flag = true →
    (id, (lib.dev id).buffer.devFd) ∈ lib.files ∨ (lib.dev id).buffer.devFd = -1

/-! ## The invariant -/

@[simp] theorem set_dev_self (lib : Lib) (id : Nat) (c : DevCtx) : (lib.set id c).dev id = c := by
  simp [Lib.set]

theorem set_dev_other (lib : Lib) {id j : Nat} (c : DevCtx) (h : j ≠ id) :
    (lib.set id c).dev j = lib.dev j := by
  simp [Lib.set, h]

@[simp] theorem set_files (lib : Lib) (id : Nat) (c : DevCtx) : (lib.set id c).files = lib.files :=
  rfl

/-- Closing and opening a device leaves the others alone. -/
theorem closeFlagged_other (lib : Lib) {id e : Nat} (h : e ≠ id) :
    (closeFlagged lib id).dev e = lib.dev e := by
  unfold closeFlagged fgdsCloseInner
  split
  · dsimp only
    split
    · simp [Lib.setFlag, Lib.set, h]
    · simp [Lib.setFlag, Lib.set, h]
  · rfl

theorem closeFlagged_flag (lib : Lib) (id : Nat) : ((closeFlagged lib id).dev id).flag = false := by
  unfold closeFlagged
  split
  · simp [Lib.setFlag]
  · rename_i hflag
    simpa using hflag

theorem fgdsOpenInner_other (o : Nat → Option Nat) (lib : Lib) {id e : Nat} (h : e ≠ id) :
    (fgdsOpenInner o lib id).2.dev e = lib.dev e := by
  cases ho : o id with
  | none => simp [fgdsOpenInner, ho, Lib.set, h]
  | some fd => simp [fgdsOpenInner, ho, Lib.set, h]

/-- Descriptors are used once, so a device is found by its descriptor. -/
theorem OpenInv.device_eq {lib : Lib} (h : OpenInv lib) {i j : Nat} {fd : Int}
    (hi : (i, fd) ∈ lib.files) (hj : (j, fd) ∈ lib.files) : i = j :=
  congrArg Prod.fst (List.inj_on_of_nodup_map h.nodup hi hj rfl)

/-- Closing a device takes at most its own descriptor away. -/
theorem OpenInv.closeFlagged {lib : Lib} (h : OpenInv lib) (id : Nat) :
    OpenInv (closeFlagged lib id) := by
  unfold OpenClose.closeFlagged
  split
  swap
  · exact h
  rename_i hflag
  unfold fgdsCloseInner
  dsimp only
  split
  · refine ⟨h.nodup, fun e he => ?_⟩
    by_cases hid : e = id
    · subst hid
      simp [Lib.setFlag] at he
    · rw [Lib.setFlag, set_dev_other _ _ hid] at he ⊢
      exact h.flagged e he
  · refine ⟨?_, fun e he => ?_⟩
    · simp only [Lib.setFlag, set_files]
      split
      · exact h.nodup.sublist (List.filter_sublist.map _)
      · exact h.nodup
    · by_cases hid : e = id
      · subst hid
        simp [Lib.setFlag] at he
      · simp only [Lib.setFlag, Lib.set, hid, ↓reduceIte] at he ⊢
        rcases h.flagged e he with hopen | hfail
        · left
          split
          · rename_i hpos
            refine List.mem_filter.mpr ⟨hopen, ?_⟩
            simp only [ne_eq, decide_not, Bool.not_eq_eq_eq_not, Bool.not_true,
              decide_eq_false_iff_not]
            intro heq
            rcases h.flagged id hflag with hself | hfailed
            · exact hid (h.device_eq hopen (heq ▸ hself))
            · omega
          · exact hopen
        · exact Or.inr hfail

theorem OpenInv.closeAll {lib : Lib} (h : OpenInv lib) : OpenInv (fgdsCloseAll lib) := by
  unfold fgdsCloseAll
  induction List.range fgdsMaxDevices generalizing lib with
  | nil => exact h
  | cons id rest ih => exact ih (h.closeFlagged id)

theorem setFlag_self (lib : Lib) (id : Nat) : lib.setFlag id (lib.dev id).flag = lib := by
  unfold Lib.setFlag Lib.set
  congr 1
  funext j
  by_cases hj : j = id
  · simp [hj]
  · simp [hj]

/-- `__fgds_open` on a device, and any value of its flag afterwards if it failed or the
device is now open. -/
theorem OpenInv.openInner {lib : Lib} (h : OpenInv lib) {o : Nat → Option Nat} {id : Nat}
    (hnew : ∀ fd, o id = some fd → ∀ f ∈ lib.files, f.2 ≠ (fd : Int)) (flag : Bool) :
    OpenInv ((fgdsOpenInner o lib id).2.setFlag id flag) := by
  cases ho : o id with
  | none =>
    simp only [fgdsOpenInner, ho]
    refine ⟨h.nodup, fun e he => ?_⟩
    by_cases hid : e = id
    · subst hid
      simp [Lib.setFlag]
    · simp only [Lib.setFlag, Lib.set, hid, ↓reduceIte] at he ⊢
      exact h.flagged e he
  | some fd =>
    simp only [fgdsOpenInner, ho]
    refine ⟨?_, fun e he => ?_⟩
    · refine List.nodup_cons.mpr ⟨fun hmem => ?_, h.nodup⟩
      obtain ⟨f, hf, heq⟩ := List.mem_map.mp hmem
      exact hnew fd ho f hf heq
    · by_cases hid : e = id
      · subst hid
        simp [Lib.setFlag, Lib.set]
      · simp only [Lib.setFlag, Lib.set, hid, ↓reduceIte] at he ⊢
        exact (h.flagged e he).imp_left (List.mem_cons_of_mem _)

theorem fgdsOpenInner_files (o : Nat → Option Nat) (lib : Lib) (id : Nat) {f : Nat × Int}
    (hf : f ∈ (fgdsOpenInner o lib id).2.files) :
    f ∈ lib.files ∨ ∃ fd, o id = some fd ∧ f.2 = (fd : Int) := by
  cases ho : o id with
  | none =>
    simp only [fgdsOpenInner, ho] at hf
    exact Or.inl hf
  | some fd =>
    simp only [fgdsOpenInner, ho] at hf
    rcases List.mem_cons.mp hf with rfl | hf
    · exact Or.inr ⟨fd, rfl, rfl⟩
    · exact Or.inl hf

/-- The loop of `fgds_open(-1)`: the descriptors still to come are not in use. -/
theorem OpenInv.openAll {o : Nat → Option Nat} (hinj : ∀ i j fd, o i = some fd → o j = some fd →
    i = j) {l : List Nat} (hl : l.Nodup) {lib : Lib} (h : OpenInv lib)
    (hnew : ∀ id ∈ l, ∀ fd, o id = some fd → ∀ f ∈ lib.files, f.2 ≠ (fd : Int)) :
    OpenInv (openAll o l lib).2 := by
  induction l generalizing lib with
  | nil => exact h
  | cons id rest ih =>
    obtain ⟨hid, hrest⟩ := List.nodup_cons.mp hl
    have hself := hnew id List.mem_cons_self
    rw [OpenClose.openAll]
    split
    · exact ih hrest h fun j hj => hnew j (List.mem_cons_of_mem id hj)
    · dsimp only
      split
      · have hkeep := h.openInner hself ((fgdsOpenInner o lib id).2.dev id).flag
        rw [setFlag_self] at hkeep
        exact hkeep.closeAll
      · refine ih hrest (h.openInner hself true) fun j hj fd hfd f hf => ?_
        rcases fgdsOpenInner_files o lib id hf with hold | ⟨fd', hfd', heq⟩
        · exact hnew j (List.mem_cons_of_mem id hj) fd hfd f hold
        · intro hsame
          have : fd' = fd := by omega
          exact hid (hinj id j fd (this ▸ hfd') hfd ▸ hj)

theorem OpenInv.openOne {lib : Lib} (h : OpenInv lib) {o : Nat → Option Nat}
    (ho : Fresh o lib.files) (id : Nat) : OpenInv (openOne o lib id).2 := by
  unfold OpenClose.openOne
  split
  · exact h
  · exact h.openInner (ho.unused id) true

theorem OpenInv.opens {lib : Lib} (h : OpenInv lib) {o : Nat → Option Nat}
    (ho : Fresh o lib.files) (d : Int) : OpenInv (fgdsOpen o lib d).2 := by
  unfold fgdsOpen
  split
  · exact h
  · split
    · exact h.openAll ho.inj List.nodup_range fun id _ => ho.unused id
    · split
      · exact h.openOne ho _
      · exact h.openOne ho _

theorem OpenInv.closes {lib : Lib} (h : OpenInv lib) (d : Int) : OpenInv (fgdsClose lib d).2 := by
  unfold fgdsClose
  split
  · exact h.closeFlagged _
  · exact h

theorem History.inv {lib : Lib} (h : History lib) : OpenInv lib := by
  induction h with
  | loaded => exact ⟨List.nodup_nil, by simp [libZero]⟩
  | opens o d _ ho ih => exact ih.opens ho d
  | closes d _ ih => exact ih.closes d

/-! ## What a return value says -/

theorem isFgdsInitialized_iff (lib : Lib) :
    isFgdsInitialized lib = true ↔ ∃ e < fgdsMaxDevices, (lib.dev e).flag = true := by
  simp [isFgdsInitialized]

/-- A call on one device while none is flagged. -/
theorem fgdsOpen_first (o : Nat → Option Nat) {lib : Lib} {d : Nat} (hd : d < fgdsMaxDevices)
    (hnone : ¬ isFgdsInitialized lib = true) :
    fgdsOpen o lib d =
      ((fgdsOpenInner o lib d).1, (fgdsOpenInner o lib d).2.setFlag d true) := by
  have hflag : ¬ (lib.dev d).flag = true := fun h =>
    hnone ((isFgdsInitialized_iff lib).mpr ⟨d, hd, h⟩)
  rw [fgdsOpen, if_neg hnone, if_neg (by omega), if_pos (by omega), openOne, Int.toNat_natCast,
    if_neg hflag]

/-- While a device is flagged nothing is done. -/
theorem tells_flagged (o : Nat → Option Nat) {lib : Lib} (d : Nat)
    (hany : isFgdsInitialized lib = true) : Tells o lib d ↔ DeviceOpen lib d := by
  have hnop : fgdsOpen o lib d = (0, lib) := by rw [fgdsOpen, if_pos hany]
  constructor
  · intro h
    have hopen := h.success (by rw [hnop])
    rwa [hnop] at hopen
  · intro hopen
    constructor
    · intro _
      rwa [hnop]
    · intro hne
      rw [hnop] at hne
      exact absurd rfl hne

/-- The first call tells the truth if its `open(2)` succeeds. If not, it flags the device all the
same. -/
theorem tells_first (o : Nat → Option Nat) {lib : Lib} {d : Nat} (hd : d < fgdsMaxDevices)
    (hnone : isFgdsInitialized lib = false) : Tells o lib d ↔ (o d).isSome = true := by
  have hfirst := fgdsOpen_first o hd (Bool.not_eq_true _ ▸ hnone)
  cases ho : o d with
  | some fd =>
    refine iff_of_true ⟨fun _ => ⟨fd, ?_⟩, fun hne => absurd ?_ hne⟩ rfl
    · simp [hfirst, fgdsOpenInner, ho, Lib.setFlag, Lib.set]
    · simp [hfirst, fgdsOpenInner, ho]
  | none =>
    refine iff_of_false (fun h => ?_) (by simp)
    have hflag : (lib.dev d).flag = false := by
      by_contra hset
      have hany := (isFgdsInitialized_iff lib).mpr ⟨d, hd, by simpa using hset⟩
      rw [hnone] at hany
      cases hany
    have hsame := h.failure (by simp [hfirst, fgdsOpenInner, ho]) d hd
    rw [hflag, hfirst] at hsame
    simp [Lib.setFlag] at hsame

/-- **Return values.** After every history `fgds_open(d)` tells the truth if and only if no device
is flagged and its `open(2)` succeeds, or one is and `d` is open already. If no flag is left of
an `open(2)` that failed, and that of the call does not fail, then it tells the truth, or another
device is open and the call does nothing. -/
theorem open_tells_iff {lib : Lib} (h : History lib) {d : Nat} (hd : d < fgdsMaxDevices)
    (o : Nat → Option Nat) :
    (Tells o lib d ↔ (isFgdsInitialized lib = false ∧ (o d).isSome = true) ∨
      (isFgdsInitialized lib = true ∧ DeviceOpen lib d)) ∧
    ((∀ e < fgdsMaxDevices, ¬ FlaggedFailed lib e) → (o d).isSome = true →
      Tells o lib d ∨
        (∃ e < fgdsMaxDevices, e ≠ d ∧ DeviceOpen lib e) ∧ fgdsOpen o lib d = (0, lib)) := by
  cases hany : isFgdsInitialized lib with
  | false =>
    have hiff := tells_first o hd hany
    exact ⟨by simpa using hiff, fun _ ho => .inl (hiff.mpr ho)⟩
  | true =>
    have hiff := tells_flagged o d hany
    refine ⟨by simpa using hiff, fun hfailed _ => ?_⟩
    obtain ⟨e, he, hflag⟩ := (isFgdsInitialized_iff lib).mp hany
    have hopen : DeviceOpen lib e := by
      rcases h.inv.flagged e hflag with hmem | hfd
      · exact ⟨_, hmem⟩
      · exact absurd ⟨hflag, hfd⟩ (hfailed e he)
    by_cases hed : e = d
    · subst hed
      exact .inl (hiff.mpr hopen)
    · exact .inr ⟨⟨e, he, hed, hopen⟩, by rw [fgdsOpen, if_pos hany]⟩

/-- Every device gets its number plus three as its descriptor. -/
def plainOpen (id : Nat) : Option Nat := some (id + 3)

theorem plainOpen_fresh : Fresh plainOpen [] := by
  refine ⟨fun id fd _ f hf => ?_, fun i j fd hi hj => ?_⟩
  · cases hf
  · simp only [plainOpen, Option.some.injEq] at hi hj
    omega

/-- Device 2 was opened. -/
def secondOpen : Lib := (fgdsOpen plainOpen libZero 2).2

theorem secondOpen_history : History secondOpen := .opens plainOpen 2 .loaded plainOpen_fresh

/-- After device 2 was opened and closed, device 5 can be opened; opened once more it is still
open. -/
theorem open_tells_again :
    Tells plainOpen (fgdsClose secondOpen 2).2 5 ∧
      Tells plainOpen (fgdsOpen plainOpen (fgdsClose secondOpen 2).2 5).2 5 := by
  have hclosed : History (fgdsClose secondOpen 2).2 := .closes 2 secondOpen_history
  have hfiles : (fgdsClose secondOpen 2).2.files = [] := by decide
  have hopened := History.opens plainOpen 5 hclosed (by rw [hfiles]; exact plainOpen_fresh)
  refine ⟨(open_tells_iff hclosed (by decide) plainOpen).1.mpr (.inl ⟨by decide, rfl⟩),
    (open_tells_iff hopened (by decide) plainOpen).1.mpr (.inr ⟨by decide, 8, ?_⟩)⟩
  have hlist : (fgdsOpen plainOpen (fgdsClose secondOpen 2).2 5).2.files = [(5, 8)] := by decide
  rw [hlist]
  exact List.mem_singleton_self _

/-- The `open(2)` of device 0 has failed. -/
def firstFailed : Lib := (fgdsOpen (fun _ => none) libZero 0).2

/-- The failed call returns -1 and flags device 0. Opening it again returns 0, as does opening
device 1, and no device is open. -/
theorem open_after_failed :
    History firstFailed ∧ (fgdsOpen (fun _ => none) libZero 0).1 = -1 ∧
      ¬ Tells (fun _ => none) libZero 0 ∧
      (fgdsOpen plainOpen firstFailed 0).1 = 0 ∧ (fgdsOpen plainOpen firstFailed 1).1 = 0 ∧
      (fgdsOpen plainOpen firstFailed 0).2.files = [] ∧
      ¬ Tells plainOpen firstFailed 0 ∧ ¬ Tells plainOpen firstFailed 1 := by
  have hnone : ∀ d, ¬ DeviceOpen firstFailed d := by
    rintro d ⟨fd, hfd⟩
    have hfiles : firstFailed.files = [] := by decide
    rw [hfiles] at hfd
    cases hfd
  have hflagged : isFgdsInitialized firstFailed = true := by decide
  refine ⟨.opens _ 0 .loaded ⟨by simp, by simp⟩, by decide, fun h => ?_, by decide, by decide,
    by decide, fun h => ?_, fun h => ?_⟩
  · exact absurd ((tells_first _ (by decide) (by decide)).mp h) (by decide)
  · exact hnone 0 ((tells_flagged plainOpen 0 hflagged).mp h)
  · exact hnone 1 ((tells_flagged plainOpen 1 hflagged).mp h)

end Fgds.OpenClose
