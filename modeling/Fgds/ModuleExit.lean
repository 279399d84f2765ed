import Fgds.ModuleInit

/-!
# Unloading the kernel module

`fgds_exit` after a load that succeeded. It takes apart what `fgds_init` made, GPU by GPU, and
gives back the class, the symbols and the region of device numbers. The reference on the PCI
device of a GPU that was remapped is not put, and the region is unregistered with the count 1,
whatever count it was allocated with.

* `ctrlLoop_slots`: the state of each GPU, and what is held for it, after `fgds_ctrl_init`;
* `exitLoop_events`: what `fgds_exit` releases for each GPU;
* `unload_balance`: after load and unload exactly `leftBehind` is still held, and this is never
  empty.
-/

namespace Fgds.ModuleExit

open Fgds.Lib.CInt Fgds.Lib.Ledger Fgds.Remap Fgds.KernelMap Fgds.ModuleInit

/-! ## `fgds_exit` -/

/-- `FGDS_MINORS`. -/
def fgdsMinors : Nat := 1

/-- `fgds_cdev_del`: the device afterwards, and what was released. `pgmap` is the first member of
the descriptor, so that its address is that of the descriptor. -/
def fgdsCdevDel (i : Nat) (d : GpuDev) : GpuDev × List (Event Resource) :=
  let unmapped := if d.mem.remap ∧ d.p2pPgmap then [.release (.pageMap i)] else []
  let mem := if d.mem.remap then { d.mem with pciMemVa := none, remap := false } else d.mem
  let freed := if d.p2pPgmap then [.release (.pgmap i)] else []
  (⟨none, d.idx, false, mem⟩, .release (.cdev i) :: unmapped ++ freed)

/-- The loop over the GPUs. -/
def exitLoop : List Nat → Ctrl → Ctrl × List (Event Resource)
  | [], ctrl => (ctrl, [])
  | i :: rest, ctrl =>
    if ¬ (ctrl.gpuDev i).mem.remap then
      match (ctrl.gpuDev i).dev with
      | none => exitLoop rest ctrl
      | some d =>
        let res := exitLoop rest (ctrl.set i { ctrl.gpuDev i with dev := none })
        (res.1, .release (.pciRef d) :: res.2)
    else
      let del := fgdsCdevDel i (ctrl.gpuDev i)
      let res := exitLoop rest (ctrl.set i del.1)
      (res.1, del.2 ++ res.2)

/-- `nvfs_nvidia_p2p_exit`, with all pointers set. -/
def nvfsNvidiaP2pExit : List (Event Resource) := (p2pSymbols.map Resource.symbol).map .release

/-- `unregister_chrdev_region`: a region is removed only with the count that it has. -/
def unregisterChrdevRegion (allocated count : Nat) : List (Event Resource) :=
  if count = allocated then [.release (.chrdevRegion allocated)] else []

/-- `fgds_exit`. -/
def fgdsExit (ctrl : Ctrl) : List (Event Resource) :=
  (exitLoop (List.range ctrl.devNum) ctrl).2 ++ nvfsNvidiaP2pExit ++ .release .chrClass ::
    unregisterChrdevRegion ctrl.devNum fgdsMinors

/-- A load and the unload after it. -/
def loadUnload (env : LoadEnv) : List (Event Resource) :=
  (fgdsInit env).events ++ fgdsExit (fgdsInit env).ctrl

/-! ## The GPUs after the load -/

/-- A GPU that was not selected, or whose BAR was not remapped. -/
def Unused (d : GpuDev) : Prop := d.dev = none ∧ d.p2pPgmap = false ∧ d.mem.remap = false

def Remapped (d : GpuDev) (p : PciDev) : Prop :=
  d.dev = some p ∧ d.p2pPgmap = true ∧ d.mem.remap = true

/-- What the module holds for a GPU, apart from its character device. -/
def held (i : Nat) (d : GpuDev) : List Resource :=
  match d.dev with
  | none => []
  | some p => [.pciRef p, .pgmap i, .pageMap i]

/-- What stays. -/
def leftBehind (ctrl : Ctrl) : List Resource :=
  ((List.range ctrl.devNum).flatMap fun i => ((ctrl.gpuDev i).dev.map Resource.pciRef).toList) ++
    if ctrl.devNum = fgdsMinors then [] else [.chrdevRegion ctrl.devNum]

section Proofs

variable {env : LoadEnv}

theorem set_gpuDev (c : Ctrl) (i j : Nat) (d : GpuDev) :
    (c.set i d).gpuDev j = if j = i then d else c.gpuDev j := rfl

theorem probeLoop_remap {p : Platform} {dev dev' : FgdsDev} {l : List Nat} {call : Nat}
    (h : probeLoop p dev l call = some dev') : dev'.remap = true := by
  induction l generalizing call with
  | nil => cases h
  | cons mb l ih =>
    rw [probeLoop] at h
    split at h
    · cases h
    · split at h
      · exact ih h
      · split at h
        · exact ih h
        · cases h
          rfl

/-- The BAR is remapped if and only if the call succeeds; it then has made a descriptor. -/
theorem fgdsDevmMemremap_remap (p : Platform) (dev : FgdsDev) (hdev : dev.remap = false) :
    ((fgdsDevmMemremap p dev).1 = 0 ∧ p.kzalloc = true ∧ (fgdsDevmMemremap p dev).2.remap = true) ∨
      ((fgdsDevmMemremap p dev).1 ≠ 0 ∧ (fgdsDevmMemremap p dev).2.remap = false) := by
  unfold fgdsDevmMemremap
  split
  · exact .inr ⟨by simp [eNoMem], hdev⟩
  · rename_i hk
    have hk : p.kzalloc = true := by simpa using hk
    split
    · exact .inl ⟨rfl, hk, rfl⟩
    · split
      · exact .inr ⟨by simp [eNoMem], hdev⟩
      · split
        · exact .inr ⟨by simp [eNoMem], hdev⟩
        · rename_i dev' hprobe
          exact .inl ⟨rfl, hk, probeLoop_remap hprobe⟩

/-- The four things that can happen to a GPU: it is not selected; its PCI device is not found, and
the load fails; its BAR cannot be remapped, and everything is given back; it is remapped. -/
theorem ctrlLoop_cons (env : LoadEnv) (i : Nat) (rest : List Nat) (ctrl : Ctrl) (flag : Int) :
    ctrlLoop env (i :: rest) ctrl flag = ctrlLoop env rest ctrl flag ∨
    (∃ x, ctrlLoop env (i :: rest) ctrl flag = ⟨-1, ctrl.set i x, []⟩) ∨
    (∃ x es, Unused x ∧ Neutral es ∧ ctrlLoop env (i :: rest) ctrl flag =
      { ctrlLoop env rest (ctrl.set i x) flag with
        events := es ++ (ctrlLoop env rest (ctrl.set i x) flag).events }) ∨
    ∃ x p es, fgdsUseDevice env i = true ∧ Remapped x p ∧
      (∀ r, net es r = net ((held i x).map .acquire) r) ∧ ctrlLoop env (i :: rest) ctrl flag =
      { ctrlLoop env rest (ctrl.set i x) 0 with
        events := es ++ (ctrlLoop env rest (ctrl.set i x) 0).events } := by
  rw [ctrlLoop]
  by_cases huse : fgdsUseDevice env i = true
  · rw [if_neg (not_not.mpr huse)]
    dsimp only
    cases env.pciGet 0 (env.gpuInfoTable i / 256 % 256) (env.gpuInfoTable i % 256) with
    | none => exact .inr (.inl ⟨_, rfl⟩)
    | some d =>
      dsimp only
      obtain ⟨mem, hmem⟩ : ∃ mem, mem =
        { largestBar d (ctrl.gpuDev i).mem with remap := false } := ⟨_, rfl⟩
      have hremap : mem.remap = false := by rw [hmem]
      rw [← hmem]
      obtain ⟨res, hres⟩ : ∃ res, res = fgdsDevmMemremap (env.platform i) mem := ⟨_, rfl⟩
      have hcases := fgdsDevmMemremap_remap (env.platform i) mem hremap
      rw [← hres] at hcases ⊢
      rcases hcases with ⟨hret, hk, hyes⟩ | ⟨hret, hno⟩
      · rw [if_neg (not_not.mpr hret)]
        refine .inr (.inr (.inr ⟨⟨some d, i, true, res.2⟩, d,
          .acquire (.pciRef d) :: memremapEvents (env.platform i) i res.1, huse, ⟨rfl, rfl, hyes⟩,
          fun r => ?_, rfl⟩))
        rw [memremapEvents, if_neg (not_not.mpr hk), if_pos hret]
        rfl
      · rw [if_pos hret]
        refine .inr (.inr (.inl ⟨⟨none, i, false, res.2⟩, .acquire (.pciRef d) ::
          memremapEvents (env.platform i) i res.1 ++ [.release (.pciRef d)], ⟨rfl, rfl, hno⟩,
          fun r => ?_, ?_⟩))
        · rw [memremapEvents, if_neg hret]
          split
          · simp only [List.cons_append, List.nil_append, net_acquire, net_release, net_nil]
            split <;> rfl
          · simp only [List.cons_append, List.nil_append, net_acquire, net_release, net_nil]
            split <;> split <;> rfl
        · simp
  · rw [if_pos huse]
    exact .inl rfl

/-- GPUs that are not in the list keep their state. -/
theorem ctrlLoop_frame {l : List Nat} {ctrl : Ctrl} {flag : Int} {j : Nat} (hj : j ∉ l) :
    (ctrlLoop env l ctrl flag).ctrl.gpuDev j = ctrl.gpuDev j := by
  induction l generalizing ctrl flag with
  | nil => rfl
  | cons i l ih =>
    rw [List.mem_cons, not_or] at hj
    have hset : ∀ d, (ctrl.set i d).gpuDev j = ctrl.gpuDev j := fun d => by
      rw [set_gpuDev, if_neg hj.1]
    rcases ctrlLoop_cons env i l ctrl flag with
      heq | ⟨x, heq⟩ | ⟨x, es, _, _, heq⟩ | ⟨x, p, es, _, _, _, heq⟩
    · rw [heq, ih hj.2]
    · rw [heq, hset]
    · rw [heq, ih hj.2, hset]
    · rw [heq, ih hj.2, hset]

theorem ctrlLoop_devNum (l : List Nat) (ctrl : Ctrl) (flag : Int) :
    (ctrlLoop env l ctrl flag).ctrl.devNum = ctrl.devNum := by
  induction l generalizing ctrl flag with
  | nil => rfl
  | cons i l ih =>
    rcases ctrlLoop_cons env i l ctrl flag with
      heq | ⟨x, heq⟩ | ⟨x, es, _, _, heq⟩ | ⟨x, p, es, _, _, _, heq⟩
    · rw [heq, ih]
    · rw [heq]
      rfl
    · rw [heq, ih]
      rfl
    · rw [heq, ih]
      rfl

/-- After a loop that succeeds each GPU is unused, or selected and remapped, and exactly what
belongs to the remapped ones is held. -/
theorem ctrlLoop_slots {l : List Nat} (hl : l.Nodup) {ctrl : Ctrl} {flag : Int}
    (hfresh : ∀ i ∈ l, Unused (ctrl.gpuDev i)) (hret : (ctrlLoop env l ctrl flag).ret = 0) :
    (∀ i ∈ l, Unused ((ctrlLoop env l ctrl flag).ctrl.gpuDev i) ∨
      fgdsUseDevice env i = true ∧ ∃ p, Remapped ((ctrlLoop env l ctrl flag).ctrl.gpuDev i) p) ∧
    (flag ≠ 0 → ∃ i ∈ l, ∃ p, Remapped ((ctrlLoop env l ctrl flag).ctrl.gpuDev i) p) ∧
    ∀ r, net (ctrlLoop env l ctrl flag).events r =
      net (l.flatMap fun i =>
        (held i ((ctrlLoop env l ctrl flag).ctrl.gpuDev i)).map .acquire) r := by
  induction l generalizing ctrl flag with
  | nil => exact ⟨by simp, fun hflag => absurd hret hflag, fun r => rfl⟩
  | cons i l ih =>
    obtain ⟨hil, hnodup⟩ := List.nodup_cons.mp hl
    -- the rest of the loop starts with fresh GPUs, and leaves this one alone
    have hrest : ∀ x, ∀ j ∈ l, Unused ((ctrl.set i x).gpuDev j) := by
      intro x j hj
      have hne : j ≠ i := fun h => hil (h ▸ hj)
      rw [set_gpuDev, if_neg hne]
      exact hfresh j (List.mem_cons_of_mem i hj)
    have hself : ∀ x f, (ctrlLoop env l (ctrl.set i x) f).ctrl.gpuDev i = x := fun x f => by
      rw [ctrlLoop_frame hil, set_gpuDev, if_pos rfl]
    have hheld : ∀ {x}, Unused x → held i x = [] := fun hx => by
      rw [held, hx.1]
    rcases ctrlLoop_cons env i l ctrl flag with
      heq | ⟨x, heq⟩ | ⟨x, es, hx, hes, heq⟩ | ⟨x, p, es, huse, hx, hes, heq⟩
    · rw [heq] at hret ⊢
      have hfreshi := hfresh i List.mem_cons_self
      obtain ⟨hslots, hsome, hnet⟩ :=
        ih hnodup (fun j hj => hfresh j (List.mem_cons_of_mem i hj)) hret
      have hi : (ctrlLoop env l ctrl flag).ctrl.gpuDev i = ctrl.gpuDev i := ctrlLoop_frame hil
      refine ⟨fun j hj => ?_, fun hflag => ?_, fun r => ?_⟩
      · rcases List.mem_cons.mp hj with rfl | hj
        · exact .inl (hi ▸ hfreshi)
        · exact hslots j hj
      · obtain ⟨j, hj, hp⟩ := hsome hflag
        exact ⟨j, List.mem_cons_of_mem i hj, hp⟩
      · rw [List.flatMap_cons, net_append, ← hnet r, hi, hheld hfreshi, List.map_nil, net_nil,
          Int.zero_add]
    · rw [heq] at hret
      cases hret
    · rw [heq] at hret ⊢
      obtain ⟨hslots, hsome, hnet⟩ := ih hnodup (hrest x) hret
      refine ⟨fun j hj => ?_, fun hflag => ?_, fun r => ?_⟩
      · rcases List.mem_cons.mp hj with rfl | hj
        · exact .inl ((hself x flag).symm ▸ hx)
        · exact hslots j hj
      · obtain ⟨j, hj, hp⟩ := hsome hflag
        exact ⟨j, List.mem_cons_of_mem i hj, hp⟩
      · rw [List.flatMap_cons, net_append, net_append, ← hnet r, hself, hheld hx, hes r]
        rfl
    · rw [heq] at hret ⊢
      obtain ⟨hslots, _, hnet⟩ := ih hnodup (hrest x) hret
      refine ⟨fun j hj => ?_, fun _ => ⟨i, List.mem_cons_self, p, (hself x 0).symm ▸ hx⟩,
        fun r => ?_⟩
      · rcases List.mem_cons.mp hj with rfl | hj
        · exact .inr ⟨huse, p, (hself x 0).symm ▸ hx⟩
        · exact hslots j hj
      · rw [List.flatMap_cons, net_append, net_append, ← hnet r, hself, hes r]

/-! ## The character devices -/

/-- A loop that succeeds adds one for every GPU that is remapped. -/
theorem cdevLoop_events {ctrl : Ctrl} {l : List Nat}
    (hslots : ∀ i ∈ l, Unused (ctrl.gpuDev i) ∨
      fgdsUseDevice env i = true ∧ ∃ p, Remapped (ctrl.gpuDev i) p)
    (hret : (cdevLoop env ctrl l).1 = 0) :
    (cdevLoop env ctrl l).2 = l.flatMap fun i =>
      if (ctrl.gpuDev i).mem.remap then [.acquire (.cdev i)] else [] := by
  induction l with
  | nil => rfl
  | cons i l ih =>
    have hl := fun j hj => hslots j (List.mem_cons_of_mem i hj)
    rw [cdevLoop] at hret ⊢
    rw [List.flatMap_cons]
    rcases hslots i List.mem_cons_self with hun | ⟨huse, p, hre⟩
    · rw [hun.2.2] at hret ⊢
      simp only [Bool.false_eq_true, not_false_eq_true, ↓reduceIte, ite_self] at hret ⊢
      exact ih hl hret
    · rw [if_neg (not_not.mpr huse), if_neg (not_not.mpr hre.2.2)] at hret ⊢
      split at hret
      · rename_i hadd
        exact absurd hret hadd
      · rename_i hadd
        rw [if_neg hadd, if_pos hre.2.2]
        exact congrArg (_ :: ·) (ih hl hret)

/-! ## The unload -/

/-- What is released for a GPU. -/
def dropped (i : Nat) (d : GpuDev) : List (Event Resource) :=
  if d.mem.remap then [.release (.cdev i), .release (.pageMap i), .release (.pgmap i)] else []

theorem exitLoop_events {l : List Nat} (hl : l.Nodup) {ctrl : Ctrl}
    (hslots : ∀ i ∈ l, Unused (ctrl.gpuDev i) ∨ ∃ p, Remapped (ctrl.gpuDev i) p) :
    (exitLoop l ctrl).2 = l.flatMap fun i => dropped i (ctrl.gpuDev i) := by
  induction l generalizing ctrl with
  | nil => rfl
  | cons i l ih =>
    obtain ⟨hil, hnodup⟩ := List.nodup_cons.mp hl
    have hne : ∀ j ∈ l, j ≠ i := fun j hj h => hil (h ▸ hj)
    rw [exitLoop, List.flatMap_cons, dropped]
    rcases hslots i List.mem_cons_self with ⟨hdev, _, hremap⟩ | ⟨p, _, hpgmap, hremap⟩
    · rw [if_pos (by simp [hremap]), hdev, if_neg (by simp [hremap])]
      exact ih hnodup fun j hj => hslots j (List.mem_cons_of_mem i hj)
    · rw [if_neg (by simp [hremap]), if_pos hremap]
      have hset : ∀ j ∈ l, (ctrl.set i (fgdsCdevDel i (ctrl.gpuDev i)).1).gpuDev j =
          ctrl.gpuDev j := fun j hj => by rw [set_gpuDev, if_neg (hne j hj)]
      have hrest : (exitLoop l (ctrl.set i (fgdsCdevDel i (ctrl.gpuDev i)).1)).2 =
          l.flatMap fun j => dropped j (ctrl.gpuDev j) := by
        rw [ih hnodup fun j hj => by
          rw [hset j hj]
          exact hslots j (List.mem_cons_of_mem i hj)]
        exact List.flatMap_congr fun j hj => by rw [hset j hj]
      dsimp only
      rw [hrest]
      simp [fgdsCdevDel, hremap, hpgmap]

/-! ## Load and unload -/

/-- `fgds_ctrl_init` of the static `ctrl` for the GPUs that were counted. -/
def loadedCtrl (env : LoadEnv) : LoadResult :=
  ctrlLoop env (List.range (gpuCount env)) { ctrlZero with devNum := gpuCount env } (-1)

/-- The parts of a load that succeeded. -/
theorem fgdsInit_zero (h : (fgdsInit env).ret = 0) :
    (loadedCtrl env).ret = 0 ∧ (fgdsInit env).ctrl = (loadedCtrl env).ctrl ∧
    (cdevLoop env (loadedCtrl env).ctrl (List.range (gpuCount env))).1 = 0 ∧
    (fgdsInit env).events = (p2pSymbols.map Resource.symbol).map .acquire ++
      (loadedCtrl env).events ++
      (.acquire (.chrdevRegion (gpuCount env)) :: .acquire .chrClass ::
        (cdevLoop env (loadedCtrl env).ctrl (List.range (gpuCount env))).2) := by
  have hsymbols : ∀ s, env.symbolGet s = true := by
    intro s
    by_contra hs
    have hmissing := (p2pInit_missing (Bool.eq_false_iff.mpr hs)).1
    simp [fgdsInit, hmissing] at h
  have hnum : (loadedCtrl env).ctrl.devNum = gpuCount env := ctrlLoop_devNum _ _ _
  simp only [fgdsInit, p2pInit_found hsymbols, ne_eq, not_true_eq_false, ↓reduceIte] at h ⊢
  by_cases hcount : gpuCount env = 0
  · rw [if_pos hcount] at h
    cases h
  by_cases hnone : env.useAllGpus = false ∧ env.gpuids.length = 0
  · simp [hcount, fgdsCtrlInit, hnone, eInval] at h
  have hctrl : fgdsCtrlInit env ctrlZero (gpuCount env) = loadedCtrl env := by
    rw [fgdsCtrlInit, if_neg hnone, loadedCtrl]
  rw [hctrl, if_neg hcount] at h ⊢
  by_cases hret : (loadedCtrl env).ret = 0
  · simp only [hret, not_true_eq_false, ↓reduceIte] at h ⊢
    by_cases hcdev : (fgdsCdevInit env (loadedCtrl env).ctrl).1 = 0
    · simp only [hcdev, not_true_eq_false, ↓reduceIte, true_and]
      unfold fgdsCdevInit at hcdev ⊢
      rw [hnum] at hcdev ⊢
      by_cases hregion : env.allocChrdevRegion < 0
      · rw [if_pos hregion] at hcdev
        simp only at hcdev
        omega
      by_cases hclass : env.classCreate = 0
      · rw [if_neg hregion, if_neg (not_not.mpr hclass)] at hcdev ⊢
        exact ⟨hcdev, rfl⟩
      · rw [if_neg hregion, if_pos hclass] at hcdev
        exact absurd hcdev hclass
    · simp only [hcdev, not_false_eq_true, ↓reduceIte] at h
      cases h
  · simp only [hret, not_false_eq_true, ↓reduceIte] at h
    cases h

/-- The references on PCI devices that stay. -/
def pciRefs (d : GpuDev) : List Resource := (d.dev.map Resource.pciRef).toList

/-- What is held for a GPU and its character device, against what is released. -/
theorem slot_balance {i : Nat} {d : GpuDev} (hslot : Unused d ∨ ∃ p, Remapped d p) (r : Resource) :
    net ((held i d).map .acquire ++ if d.mem.remap then [.acquire (.cdev i)] else []) r +
      net (dropped i d) r = net ((pciRefs d).map .acquire) r := by
  rcases hslot with ⟨hdev, _, hremap⟩ | ⟨p, hdev, _, hremap⟩
  · simp [held, dropped, pciRefs, hdev, hremap]
  · simp only [held, dropped, pciRefs, hdev, hremap, ↓reduceIte, List.map_cons, List.map_nil,
      List.cons_append, List.nil_append, Option.map_some, Option.toList_some, net_acquire,
      net_release, net_nil]
    split <;> split <;> split <;> split <;> rfl

theorem loadedCtrl_slots (hret : (loadedCtrl env).ret = 0) :
    (∀ i ∈ List.range (gpuCount env), Unused ((loadedCtrl env).ctrl.gpuDev i) ∨
      fgdsUseDevice env i = true ∧ ∃ p, Remapped ((loadedCtrl env).ctrl.gpuDev i) p) ∧
    (∃ i ∈ List.range (gpuCount env), ∃ p, Remapped ((loadedCtrl env).ctrl.gpuDev i) p) ∧
    ∀ r, net (loadedCtrl env).events r = net ((List.range (gpuCount env)).flatMap fun i =>
      (held i ((loadedCtrl env).ctrl.gpuDev i)).map .acquire) r := by
  obtain ⟨hslots, hsome, hnet⟩ :=
    ctrlLoop_slots List.nodup_range (fun i _ => ⟨rfl, rfl, rfl⟩) hret
  exact ⟨hslots, hsome (by decide), hnet⟩

/-- The region: it stays unless it has the size with which it is unregistered. -/
theorem region_balance (n : Nat) (r : Resource) :
    net [.acquire (.chrdevRegion n)] r + net (unregisterChrdevRegion n fgdsMinors) r =
      net ((if n = fgdsMinors then [] else [.chrdevRegion n]).map .acquire) r := by
  unfold unregisterChrdevRegion
  by_cases hone : n = fgdsMinors
  · rw [if_pos hone.symm, if_pos hone]
    simp only [net_acquire, net_release, net_nil, List.map_nil]
    split <;> rfl
  · rw [if_neg (Ne.symm hone), if_neg hone]
    rfl

/-- The balance after load and unload. -/
theorem unload_net (h : (fgdsInit env).ret = 0) (r : Resource) :
    net (loadUnload env) r = (leftBehind (fgdsInit env).ctrl).count r := by
  obtain ⟨hret, hctrl, hcdev, hevents⟩ := fgdsInit_zero h
  have hnum : (loadedCtrl env).ctrl.devNum = gpuCount env := ctrlLoop_devNum _ _ _
  obtain ⟨hslots, _, hnet⟩ := loadedCtrl_slots hret
  have hslots' : ∀ i ∈ List.range (gpuCount env), Unused ((loadedCtrl env).ctrl.gpuDev i) ∨
      ∃ p, Remapped ((loadedCtrl env).ctrl.gpuDev i) p := fun i hi =>
    (hslots i hi).imp_right fun hre => hre.2
  have hadded := cdevLoop_events hslots hcdev
  have hexit := exitLoop_events List.nodup_range hslots'
  -- GPU by GPU
  have hacq := net_flatMap_add (List.range (gpuCount env))
    (fun i => (held i ((loadedCtrl env).ctrl.gpuDev i)).map Event.acquire)
    (fun i => if ((loadedCtrl env).ctrl.gpuDev i).mem.remap then [.acquire (.cdev i)] else [])
    _ r fun i _ => (net_append _ _ r).symm
  have hgpus := net_flatMap_add (List.range (gpuCount env)) _
    (fun i => dropped i ((loadedCtrl env).ctrl.gpuDev i)) _ r fun i hi =>
      slot_balance (hslots' i hi) r
  have hregion := region_balance (gpuCount env) r
  have hsymbols := neutral_undo (p2pSymbols.map Resource.symbol) r
  have hclass := neutral_undo [Resource.chrClass] r
  rw [net_append] at hsymbols hclass
  have hleft : leftBehind (loadedCtrl env).ctrl = ((List.range (gpuCount env)).flatMap fun i =>
      pciRefs ((loadedCtrl env).ctrl.gpuDev i)) ++
      if gpuCount env = fgdsMinors then [] else [.chrdevRegion (gpuCount env)] := by
    rw [leftBehind, hnum]
    rfl
  rw [loadUnload, fgdsExit, hevents, hctrl, hnum, hadded, hexit, hleft, ← net_acquires,
    List.map_append, net_append _ (List.map _ _), List.map_flatMap, ← hgpus, ← hacq, ← hnet,
    ← hregion]
  simp only [net_append, net_acquire, net_release, net_nil, nvfsNvidiaP2pExit, List.map_cons,
    List.map_nil] at hclass ⊢
  omega

/-- **Load and unload.** Whenever `fgds_init` succeeds, for any GPUs, any selection and any
outcome of the remaps: after `fgds_exit` a resource has been released as often as it was acquired
if and only if it is not one of those left behind, the reference on the PCI device of each GPU
that was remapped and, unless there is exactly one GPU, the region of device numbers. There is
always one left behind. -/
theorem unload_balance (h : (fgdsInit env).ret = 0) :
    (∀ r, net (loadUnload env) r = 0 ↔ r ∉ leftBehind (fgdsInit env).ctrl) ∧
      ∃ d, .pciRef d ∈ leftBehind (fgdsInit env).ctrl := by
  refine ⟨fun r => ?_, ?_⟩
  · rw [unload_net h, Nat.cast_eq_zero, List.count_eq_zero]
  · obtain ⟨hret, hctrl, _, _⟩ := fgdsInit_zero h
    have hnum : (loadedCtrl env).ctrl.devNum = gpuCount env := ctrlLoop_devNum _ _ _
    obtain ⟨_, ⟨i, hi, p, hdev, _⟩, _⟩ := loadedCtrl_slots hret
    refine ⟨p, List.mem_append_left _ (List.mem_flatMap.mpr ⟨i, ?_, ?_⟩)⟩
    · rw [hctrl, hnum]
      exact hi
    · rw [hctrl, hdev]
      exact List.mem_singleton_self _

/-- Two GPUs, of which one is selected; its BAR can be remapped. -/
def oneOfTwoEnv : LoadEnv where
  symbolGet _ := true
  gpuInfoTable i := if i < 2 then 256 * (i + 1) else 0
  useAllGpus := false
  gpuids := [1]
  pciGet _ bus devfn := some ⟨0, bus, devfn, [(4294967296, 67108864)]⟩
  platform _ := ⟨true, true, fun _ _ _ => some 4096, fun _ _ => true, fun _ => 0⟩
  allocChrdevRegion := 0
  classCreate := 0
  devSetName _ := 0
  cdevDeviceAdd _ := 0

theorem unload_balance_pageMap : net (loadUnload oneOfTwoEnv) (.pageMap 1) = 0 := by
  have hret : (fgdsInit oneOfTwoEnv).ret = 0 := by decide
  exact ((unload_balance hret).1 _).mpr (by decide)

/-- The PCI device and the region of two numbers stay. -/
theorem unload_leaves : (fgdsInit oneOfTwoEnv).ret = 0 ∧
    net (loadUnload oneOfTwoEnv) (.pciRef ⟨0, 2, 0, [(4294967296, 67108864)]⟩) = 1 ∧
    net (loadUnload oneOfTwoEnv) (.chrdevRegion 2) = 1 := by
  decide

end Proofs

end Fgds.ModuleExit
