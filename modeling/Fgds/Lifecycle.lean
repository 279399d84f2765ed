import Fgds.Lib.Runs
import Fgds.OpenClose

/-!
# What a closed device leaves behind

Histories of `fgds_open`, `fgds_close`, `fgds_regmem` and `fgds_deregmem` on all devices,
with any answers of the operating system. For each device the system calls made since it
was last opened are recorded. `fgds_close` frees the nodes of the list, but makes none of
the calls that would release their mappings; and it leaves `initialized` and the
descriptor as they are, so a later `fgds_regmem` goes on with a descriptor that is closed.

* `Good`: what a call should do; `Orderly`: the condition on the caller;
* `close_reverses`: in a run of orderly calls a device that is not open holds nothing,
  and the next call is good if and only if it is orderly too;
* `close_keeps_mapping`: open, register, close leaves the mapping in place.
-/

namespace Fgds.Lifecycle

open Fgds.Lib.CInt Fgds.Lib.Ledger Fgds.Lib.Runs Fgds.Device Fgds.Regmem Fgds.OpenClose

/-! ## Calls -/

/-- The library, and for each device the calls made since it was last opened. -/
structure State where
  lib : Lib
  log : Nat → List OsCall

inductive Action where
  | opens (o : Nat → Option Nat) (d : Int)
  | closes (d : Int)
  | regmem (os : Os) (d a l : Nat)
  | deregmem (os : Os) (d a l : Nat)

/-- The device is regarded as initialised, and its last `open(2)` succeeded. -/
def Opened (lib : Lib) (d : Nat) : Prop :=
  (lib.dev d).flag = true ∧ (lib.dev d).buffer.devFd ≠ -1

instance (lib : Lib) (d : Nat) : Decidable (Opened lib d) := inferInstanceAs (Decidable (_ ∧ _))

def State.with (s : State) (d : Nat) (mb : MmapBuffer) (calls : List OsCall) : State where
  lib := s.lib.set d { s.lib.dev d with buffer := mb }
  log e := if e = d then s.log d ++ calls else s.log e

def State.step (s : State) : Action → State
  | .opens o d =>
    let lib := (fgdsOpen o s.lib d).2
    ⟨lib, fun e => if Opened lib e ∧ ¬ Opened s.lib e then [] else s.log e⟩
  | .closes d => { s with lib := (fgdsClose s.lib d).2 }
  | .regmem os d a l =>
    let r := fgdsRegmem os (s.lib.dev d).buffer d a l
    s.with d r.buffer r.calls
  | .deregmem os d a l =>
    let r := fgdsDeregmem os (s.lib.dev d).buffer a l
    s.with d r.buffer r.calls

/-- All mappings, and all registrations in the kernel, have been given back. -/
def Released (calls : List OsCall) : Prop := Neutral (callEvents calls)

/-- Every `mmap` and every ioctl uses a descriptor that is open for the device; on a
device that is not open the call fails. -/
def UsesOpen (lib : Lib) (d : Nat) (ret : Int) (calls : List OsCall) : Prop :=
  (∀ c ∈ calls, ∀ fd, c.fd = some fd → Opened lib d ∧ (d, fd) ∈ lib.files) ∧
    (¬ Opened lib d → ret ≠ 0)

/-- What a call should do. -/
def Good (s : State) : Action → Prop
  | .opens _ _ => True
  | .closes d => ∀ e < fgdsMaxDevices, (e : Int) = d → Released ((s.step (.closes d)).log e)
  | .regmem os d a l =>
    let r := fgdsRegmem os (s.lib.dev d).buffer d a l
    UsesOpen s.lib d r.ret r.calls
  | .deregmem os d a l =>
    let r := fgdsDeregmem os (s.lib.dev d).buffer a l
    UsesOpen s.lib d r.ret r.calls

/-- The condition on the caller: a device is closed when everything made through it has
been given back, and `fgds_regmem` on a device that is not open has a length that it
refuses (or finds no memory). -/
def Orderly (s : State) : Action → Prop
  | .opens _ _ => True
  | .closes d => ∀ e < fgdsMaxDevices, (e : Int) = d → Released (s.log e)
  | .regmem os d _ l =>
    Opened s.lib d ∨ os.mallocNode = none ∨ l % fgdsGpuPageSize ≠ 0 ∨ os.mallocVaddrs = false
  | .deregmem _ _ _ _ => True

/-- `open(2)` returns unused descriptors; the device numbers index `g_dev_ctx`. -/
def Possible (s : State) : Action → Prop
  | .opens o _ => Fresh o s.lib.files
  | .closes _ => True
  | .regmem _ d _ _ => d < fgdsMaxDevices
  | .deregmem _ d _ _ => d < fgdsMaxDevices

/-- The library from its loading on, with any calls. -/
def calls : System State Action where
  init := ⟨libZero, fun _ => []⟩
  step := State.step
  possible := Possible

/-! ## Devices that are not open -/

/-- An open device has its context set up; one that is not has no nodes. -/
structure Tidy (lib : Lib) : Prop where
  ready : ∀ d, Opened lib d → (lib.dev d).buffer.initialized = true
  empty : ∀ d < fgdsMaxDevices, ¬ Opened lib d → (lib.dev d).buffer.head = []

theorem opened_congr {lib lib' : Lib} {d : Nat} (hflag : (lib'.dev d).flag = (lib.dev d).flag)
    (hfd : (lib'.dev d).buffer.devFd = (lib.dev d).buffer.devFd) :
    Opened lib' d ↔ Opened lib d := by
  rw [Opened, Opened, hflag, hfd]

/-- Closing empties the list of a device that was set up. -/
theorem Tidy.closeFlagged {lib : Lib} (h : Tidy lib) (id : Nat) :
    Tidy (OpenClose.closeFlagged lib id) := by
  have hself := closeFlagged_flag lib id
  refine ⟨fun d hd => ?_, fun d hlt hd => ?_⟩
  · by_cases hid : d = id
    · subst hid
      rw [Opened, hself] at hd
      cases hd.1
    · rw [Opened, closeFlagged_other lib hid] at hd
      rw [closeFlagged_other lib hid]
      exact h.ready d hd
  · by_cases hid : d = id
    · subst hid
      by_cases hopen : Opened lib d
      · simp [OpenClose.closeFlagged, fgdsCloseInner, hopen.1, h.ready d hopen, Lib.setFlag]
      · have hempty := h.empty d hlt hopen
        unfold OpenClose.closeFlagged fgdsCloseInner
        split
        · dsimp only
          split
          · simpa [Lib.setFlag] using hempty
          · simp [Lib.setFlag]
        · exact hempty
    · rw [Opened, closeFlagged_other lib hid] at hd
      rw [closeFlagged_other lib hid]
      exact h.empty d hlt hd

theorem Tidy.closeAll {lib : Lib} (h : Tidy lib) : Tidy (fgdsCloseAll lib) := by
  unfold fgdsCloseAll
  induction List.range fgdsMaxDevices generalizing lib with
  | nil => exact h
  | cons id rest ih => exact ih (h.closeFlagged id)

/-- Opening a device that is not flagged, and any value of its flag afterwards. -/
theorem Tidy.openInner {lib : Lib} (h : Tidy lib) (o : Nat → Option Nat) {id : Nat}
    (hid : id < fgdsMaxDevices) (hflag : (lib.dev id).flag = false) (flag : Bool) :
    Tidy ((fgdsOpenInner o lib id).2.setFlag id flag) := by
  have hempty : (lib.dev id).buffer.head = [] := by
    apply h.empty id hid
    rintro ⟨hf, _⟩
    rw [hflag] at hf
    cases hf
  refine ⟨fun d hd => ?_, fun d hlt hd => ?_⟩
  · by_cases hdi : d = id
    · subst hdi
      cases ho : o d with
      | none => simp [Opened, fgdsOpenInner, ho, Lib.setFlag] at hd
      | some fd => simp [fgdsOpenInner, ho, Lib.setFlag, Lib.set]
    · have hdev : ((fgdsOpenInner o lib id).2.setFlag id flag).dev d = lib.dev d := by
        rw [Lib.setFlag, set_dev_other _ _ hdi, fgdsOpenInner_other o lib hdi]
      rw [Opened, hdev] at hd
      rw [hdev]
      exact h.ready d hd
  · by_cases hdi : d = id
    · subst hdi
      cases ho : o d with
      | none => simpa [fgdsOpenInner, ho, Lib.setFlag, Lib.set] using hempty
      | some fd => simp [fgdsOpenInner, ho, Lib.setFlag, Lib.set]
    · have hdev : ((fgdsOpenInner o lib id).2.setFlag id flag).dev d = lib.dev d := by
        rw [Lib.setFlag, set_dev_other _ _ hdi, fgdsOpenInner_other o lib hdi]
      rw [Opened, hdev] at hd
      rw [hdev]
      exact h.empty d hlt hd

theorem Tidy.openAll (o : Nat → Option Nat) {l : List Nat} (hl : ∀ id ∈ l, id < fgdsMaxDevices)
    {lib : Lib} (h : Tidy lib) : Tidy (OpenClose.openAll o l lib).2 := by
  induction l generalizing lib with
  | nil => exact h
  | cons id rest ih =>
    have hid := hl id List.mem_cons_self
    have hrest := fun j hj => hl j (List.mem_cons_of_mem id hj)
    rw [OpenClose.openAll]
    split
    · exact ih hrest h
    · rename_i hflag
      rw [Bool.not_eq_true] at hflag
      dsimp only
      split
      · have hkeep := h.openInner o hid hflag ((fgdsOpenInner o lib id).2.dev id).flag
        rw [setFlag_self] at hkeep
        exact hkeep.closeAll
      · exact ih hrest (h.openInner o hid hflag true)

theorem Tidy.openOne {lib : Lib} (h : Tidy lib) (o : Nat → Option Nat) {id : Nat}
    (hid : id < fgdsMaxDevices) : Tidy (OpenClose.openOne o lib id).2 := by
  unfold OpenClose.openOne
  split
  · exact h
  · rename_i hflag
    exact h.openInner o hid (by simpa using hflag) true

theorem Tidy.opens {lib : Lib} (h : Tidy lib) (o : Nat → Option Nat) (d : Int) :
    Tidy (fgdsOpen o lib d).2 := by
  unfold fgdsOpen
  split
  · exact h
  · split
    · exact h.openAll o fun id hid => List.mem_range.mp hid
    · split
      · exact h.openOne o (by omega)
      · exact h.openOne o (by decide)

theorem Tidy.closes {lib : Lib} (h : Tidy lib) (d : Int) : Tidy (fgdsClose lib d).2 := by
  unfold fgdsClose
  split
  · exact h.closeFlagged _
  · exact h

/-! ## Runs -/

/-- A library without flagged devices, after an attempt to open some. -/
theorem none_opened {lib : Lib} (h : ¬ isFgdsInitialized lib = true) {d : Nat}
    (hd : d < fgdsMaxDevices) : ¬ Opened lib d := fun hopen =>
  h ((isFgdsInitialized_iff lib).mpr ⟨d, hd, hopen.1⟩)

/-- What holds in a run of orderly calls. -/
structure Inv (s : State) : Prop where
  opens : OpenInv s.lib
  tidy : Tidy s.lib
  released : ∀ d < fgdsMaxDevices, ¬ Opened s.lib d → Released (s.log d)

/-- An open device has its own descriptor. -/
theorem Inv.file {s : State} (h : Inv s) {d : Nat} (hd : Opened s.lib d) :
    (d, (s.lib.dev d).buffer.devFd) ∈ s.lib.files :=
  (h.opens.flagged d hd.1).resolve_right hd.2

section With

variable {s : State} {d : Nat} {mb : MmapBuffer} {calls : List OsCall}

theorem with_other {e : Nat} (h : e ≠ d) : (s.with d mb calls).lib.dev e = s.lib.dev e := by
  simp [State.with, Lib.set, h]

theorem with_opened (hfd : mb.devFd = (s.lib.dev d).buffer.devFd) (e : Nat) :
    Opened (s.with d mb calls).lib e ↔ Opened s.lib e := by
  by_cases he : e = d
  · subst he
    apply opened_congr
    · simp [State.with]
    · simpa [State.with] using hfd
  · rw [Opened, Opened, with_other he]

/-- Registering or releasing keeps the invariant if it does nothing while the device is not
open. -/
theorem Inv.with (h : Inv s) (hfd : mb.devFd = (s.lib.dev d).buffer.devFd)
    (hini : mb.initialized = (s.lib.dev d).buffer.initialized)
    (hidle : d < fgdsMaxDevices → ¬ Opened s.lib d →
      mb.head = (s.lib.dev d).buffer.head ∧ calls = []) :
    Inv (s.with d mb calls) := by
  have hself : (s.with d mb calls).lib.dev d = { s.lib.dev d with buffer := mb } := by
    simp [State.with]
  refine ⟨⟨h.opens.nodup, fun e he => ?_⟩, ⟨fun e he => ?_, fun e hlt he => ?_⟩,
    fun e hlt he => ?_⟩
  · by_cases hed : e = d
    · subst hed
      rw [hself] at he ⊢
      rw [hfd]
      exact h.opens.flagged e he
    · rw [with_other hed] at he ⊢
      exact h.opens.flagged e he
  · have hready := h.tidy.ready e ((with_opened hfd e).mp he)
    by_cases hed : e = d
    · subst hed
      rw [hself, hini, hready]
    · rw [with_other hed, hready]
  · have hno := fun hopen => he ((with_opened hfd e).mpr hopen)
    by_cases hed : e = d
    · subst hed
      rw [hself, (hidle hlt hno).1]
      exact h.tidy.empty e hlt hno
    · rw [with_other hed]
      exact h.tidy.empty e hlt hno
  · have hno := fun hopen => he ((with_opened hfd e).mpr hopen)
    by_cases hed : e = d
    · subst hed
      simpa [State.with, (hidle hlt hno).2] using h.released e hlt hno
    · simpa [State.with, hed] using h.released e hlt hno

end With

/-- On a device that is not open the list is empty, and a release finds nothing. -/
theorem Inv.deregmem_idle {s : State} (h : Inv s) (os : Os) {d : Nat} (hd : d < fgdsMaxDevices)
    (hno : ¬ Opened s.lib d) (a l : Nat) :
    fgdsDeregmem os (s.lib.dev d).buffer a l = ⟨-1, (s.lib.dev d).buffer, [], none⟩ := by
  apply fgdsDeregmem_refused
  intro nd hfind
  rw [h.tidy.empty d hd hno] at hfind
  cases hfind

theorem Inv.step {s : State} (h : Inv s) {act : Action} (hp : Possible s act)
    (hok : Orderly s act) : Inv (s.step act) := by
  cases act with
  | opens o d =>
    refine ⟨h.opens.opens hp d, h.tidy.opens o d, fun e hlt he => ?_⟩
    by_cases hany : isFgdsInitialized s.lib = true
    · have hnop : (fgdsOpen o s.lib d).2 = s.lib := by rw [fgdsOpen, if_pos hany]
      simp only [State.step, hnop, and_not_self_iff, ↓reduceIte] at he ⊢
      exact h.released e hlt he
    · simp only [State.step] at he ⊢
      rw [if_neg fun hboth => he hboth.1]
      exact h.released e hlt (none_opened hany hlt)
  | closes d =>
    refine ⟨h.opens.closes d, h.tidy.closes d, fun e hlt he => ?_⟩
    simp only [State.step, fgdsClose] at he ⊢
    by_cases hed : (e : Int) = d
    · exact hok e hlt hed
    · apply h.released e hlt
      split at he
      · have hother : e ≠ d.toNat := by omega
        rw [Opened, closeFlagged_other s.lib hother] at he
        exact he
      · exact he
  | regmem os d a l =>
    apply h.with fgdsRegmem_keeps.1 fgdsRegmem_keeps.2
    intro _ hno
    have hidle := fgdsRegmem_idle (s.lib.dev d).buffer d a (hok.resolve_left hno)
    exact ⟨(fgdsRegmem_refused hidle.1).1, hidle.2⟩
  | deregmem os d a l =>
    apply h.with fgdsDeregmem_keeps.1 fgdsDeregmem_keeps.2
    intro hlt hno
    rw [h.deregmem_idle os hlt hno]
    exact ⟨rfl, rfl⟩

theorem inv_of_run {s : State} (h : Run calls Orderly s) : Inv s := by
  apply h.inv
  · refine ⟨⟨List.nodup_nil, by simp [calls, libZero]⟩, ⟨fun d hd => ?_, fun d _ _ => rfl⟩,
      fun d _ _ a => net_nil a⟩
    cases hd.1
  · exact fun s act hinv hp hok => hinv.step hp hok

/-! ## What closing reverses -/

theorem Inv.regmem_good {s : State} (h : Inv s) (os : Os) (d a l : Nat) :
    Good s (.regmem os d a l) ↔ Orderly s (.regmem os d a l) := by
  constructor
  · rintro ⟨hcalls, hret⟩
    by_cases hopen : Opened s.lib d
    · exact Or.inl hopen
    · right
      by_contra hpass
      obtain ⟨hnode, hal, hva⟩ : os.mallocNode ≠ none ∧ l % fgdsGpuPageSize = 0 ∧
          os.mallocVaddrs = true := by
        simpa [not_or] using hpass
      obtain ⟨self, hself⟩ := Option.ne_none_iff_exists'.mp hnode
      rcases fgdsRegmem_acts (s.lib.dev d).buffer d a hself hal hva with
        hzero | ⟨c, hc, hfd⟩
      · exact hret hopen hzero
      · exact hopen (hcalls c hc _ hfd).1
  · intro hok
    by_cases hopen : Opened s.lib d
    · refine ⟨fun c hc fd hfd => ⟨hopen, ?_⟩, fun hno => absurd hopen hno⟩
      have hown := fgdsRegmem_fd hc hfd
      rw [hown]
      exact h.file hopen
    · have hidle := fgdsRegmem_idle (s.lib.dev d).buffer d a (hok.resolve_left hopen)
      refine ⟨fun c hc => ?_, fun _ => hidle.1⟩
      rw [hidle.2] at hc
      cases hc

theorem Inv.deregmem_good {s : State} (h : Inv s) (os : Os) {d : Nat} (hd : d < fgdsMaxDevices)
    (a l : Nat) : Good s (.deregmem os d a l) := by
  by_cases hopen : Opened s.lib d
  · refine ⟨fun c hc fd hfd => ⟨hopen, ?_⟩, fun hno => absurd hopen hno⟩
    have hown := fgdsDeregmem_fd hc hfd
    rw [hown]
    exact h.file hopen
  · have hidle := h.deregmem_idle os hd hopen a l
    refine ⟨fun c hc => ?_, fun _ => ?_⟩
    · rw [hidle] at hc
      cases hc
    · rw [hidle]
      simp

/-- **Closing.** In every run of orderly calls a device that is not open holds nothing, and
the next call, on any device and with any answers of the operating system, does what it
should if and only if it is orderly: `fgds_close` leaves something behind exactly when the
caller had not given it back, and `fgds_regmem` works through a closed device exactly when
nothing else refuses it. -/
theorem close_reverses {s : State} (h : Run calls Orderly s) :
    (∀ d < fgdsMaxDevices, ¬ Opened s.lib d → Released (s.log d)) ∧
      ∀ act, Possible s act → (Good s act ↔ Orderly s act) := by
  have hinv := inv_of_run h
  refine ⟨hinv.released, fun act hp => ?_⟩
  cases act with
  | opens o d => exact Iff.rfl
  | closes d => exact Iff.rfl
  | regmem os d a l => exact hinv.regmem_good os d a l
  | deregmem os d a l => exact iff_of_true (hinv.deregmem_good os hp a l) trivial

/-- Device 0 is opened and a region of one GPU page is registered. -/
def registered : State :=
  (State.step ⟨libZero, fun _ => []⟩ (.opens plainOpen 0)).step
    (.regmem (plainOs 1 4096) 0 65536 65536)

theorem registered_run : Run calls Orderly registered := by
  have hdev : 0 < fgdsMaxDevices := by decide
  have hopen : Run calls Orderly (calls.step calls.init (.opens plainOpen 0)) :=
    .step (S := calls) (.opens plainOpen 0) .init plainOpen_fresh trivial
  exact .step (S := calls) (.regmem (plainOs 1 4096) 0 65536 65536) hopen hdev
    (Or.inl (by decide))

/-- Once the region has been released, closing the device is good. -/
theorem close_reverses_released :
    Run calls Orderly (registered.step (.deregmem (plainOs 1 4096) 0 65536 65536)) ∧
      Good (registered.step (.deregmem (plainOs 1 4096) 0 65536 65536)) (.closes 0) := by
  have hdev : 0 < fgdsMaxDevices := by decide
  have hrun : Run calls Orderly (registered.step (.deregmem (plainOs 1 4096) 0 65536 65536)) :=
    .step (S := calls) (.deregmem (plainOs 1 4096) 0 65536 65536) registered_run hdev trivial
  have hlog : (registered.step (.deregmem (plainOs 1 4096) 0 65536 65536)).log 0 =
      [.mmap 3 65536 (some 4096), .ioctlMap 3 ⟨0, 4096, 65536, 65536, 65536⟩ 0,
        .ioctlUnmap 3 ⟨0, 4096, 65536, 65536, 65536⟩ 0, .munmap 4096 65536 0] := by
    decide
  refine ⟨hrun, ((close_reverses hrun).2 (.closes 0) trivial).mpr fun e _ he => ?_⟩
  obtain rfl : e = 0 := by omega
  rw [hlog]
  intro a
  simp only [callEvents, OsCall.events, List.flatMap_cons, List.flatMap_nil, ↓reduceIte,
    List.cons_append, List.nil_append, net_acquire, net_release, net_nil]
  split <;> split <;> omega

/-- A device is opened, a region registered, and the device closed: the host mapping and
the registration in the kernel stay. -/
theorem close_keeps_mapping :
    Run calls (fun _ _ => True) registered ∧ ¬ Good registered (.closes 0) := by
  refine ⟨registered_run.mono fun _ _ _ => trivial, fun hgood => ?_⟩
  have hlog : (registered.step (.closes 0)).log 0 =
      [.mmap 3 65536 (some 4096), .ioctlMap 3 ⟨0, 4096, 65536, 65536, 65536⟩ 0] := by
    decide
  have hnet := hgood 0 (by decide) rfl (.host 4096 65536)
  rw [hlog] at hnet
  exact absurd hnet (by decide)

end Fgds.Lifecycle
