import Fgds.KernelMap
import Fgds.Lib.Ledger

/-!
# Loading the kernel module

`fgds_init` takes references on the functions of the NVIDIA driver, remaps the BAR of
every selected GPU and creates a character device for each. The kernel is a parameter
`LoadEnv`. Everything acquired and released is recorded, in order.

* `p2pInit_found`, `p2pInit_missing`: the symbol lookup undoes itself;
* `init_failed_iff`: a load that fails gives everything back exactly when it failed in
  the symbol lookup; from there on the references on the symbols, at least, stay.
-/

namespace Fgds.ModuleInit

open Fgds.Lib.CInt Fgds.Lib.Ledger Fgds.Remap Fgds.KernelMap

/-! ## What is acquired -/

/-- The functions of the NVIDIA driver that the module uses. -/
inductive P2pSymbol where
  | dmaUnmapPages
  | getPages
  | putPages
  | dmaMapPages
  | freeDmaMapping
  | freePageTable
  deriving DecidableEq, Repr

/-- In the order in which they are looked up. -/
def p2pSymbols : List P2pSymbol :=
  [.dmaUnmapPages, .getPages, .putPages, .dmaMapPages, .freeDmaMapping, .freePageTable]

/-- A PCI device: its address, and the start and the length of its BARs. -/
structure PciDev where
  domain : Nat
  bus : Nat
  devfn : Nat
  bars : List (Nat × Nat)
  deriving DecidableEq, Repr

/-- `pgmap i` is the descriptor `gpu_dev[i].p2p_pgmap`, `pageMap i` the mapping that
`devm_memremap_pages` made for it. -/
inductive Resource where
  | symbol (s : P2pSymbol)
  | pciRef (d : PciDev)
  | pgmap (i : Nat)
  | pageMap (i : Nat)
  | chrdevRegion (minors : Nat)
  | chrClass
  | cdev (i : Nat)
  deriving DecidableEq, Repr

/-- What the kernel answers during the load, and the module parameters: `gpuids` holds
the first `gpuids_count` entries. `classCreate` is 0 or the error in the pointer. -/
structure LoadEnv where
  symbolGet : P2pSymbol → Bool
  gpuInfoTable : Nat → Nat
  useAllGpus : Bool
  gpuids : List Int
  pciGet : Nat → Nat → Nat → Option PciDev
  platform : Nat → Platform
  allocChrdevRegion : Int
  classCreate : Int
  devSetName : Nat → Int
  cdevDeviceAdd : Nat → Int

/-- `struct fgds_dev`; `mem` holds the fields that the mapping code uses. -/
structure GpuDev where
  dev : Option PciDev
  idx : Nat
  p2pPgmap : Bool
  mem : FgdsDev
  deriving DecidableEq, Repr

structure Ctrl where
  gpuDev : Nat → GpuDev
  devNum : Nat

/-- The static `ctrl`. -/
def ctrlZero : Ctrl := ⟨fun _ => ⟨none, 0, false, ⟨0, 0, none, false⟩⟩, 0⟩

def Ctrl.set (c : Ctrl) (i : Nat) (d : GpuDev) : Ctrl :=
  { c with gpuDev := fun j => if j = i then d else c.gpuDev j }

structure LoadResult where
  ret : Int
  ctrl : Ctrl
  events : List (Event Resource)

/-! ## `nvfs_nvidia_p2p_init` -/

/-- The lookups, with the pointers found so far; the label `error` puts those back. -/
def p2pInitLoop (env : LoadEnv) : List P2pSymbol → List P2pSymbol → Int × List (Event Resource)
  | [], _ => (0, [])
  | s :: rest, found =>
    if env.symbolGet s then
      let (ret, es) := p2pInitLoop env rest (found ++ [s])
      (ret, .acquire (.symbol s) :: es)
    else (-1, (found.map Resource.symbol).map .release)

/-- `nvfs_nvidia_p2p_init`, with the static pointers NULL. -/
def nvfsNvidiaP2pInit (env : LoadEnv) : Int × List (Event Resource) :=
  p2pInitLoop env p2pSymbols []

/-! ## `fgds_ctrl_init` -/

section CtrlInit

variable (env : LoadEnv)

def fgdsUseDevice (idx : Nat) : Bool :=
  env.useAllGpus || env.gpuids.any fun id => id = idx

/-- `PCI_STD_NUM_BARS`. -/
def pciStdNumBars : Nat := 6

/-- The loop over the BARs: the first of the largest ones. -/
def largestBar (d : PciDev) (mem : FgdsDev) : FgdsDev :=
  (d.bars.take pciStdNumBars).foldl
    (fun m bar => if bar.2 > m.size then { m with paddr := bar.1, size := bar.2 } else m) mem

/-- The descriptor and the mapping that `fgds_devm_memremap` leaves behind. -/
def memremapEvents (p : Platform) (i : Nat) (ret : Int) : List (Event Resource) :=
  if ¬ p.kzalloc then []
  else if ret = 0 then [.acquire (.pgmap i), .acquire (.pageMap i)]
  else [.acquire (.pgmap i), .release (.pgmap i)]

/-- The loop over the GPUs; `flag` is 0 once a BAR was remapped. -/
def ctrlLoop : List Nat → Ctrl → Int → LoadResult
  | [], ctrl, flag => ⟨flag, ctrl, []⟩
  | i :: rest, ctrl, flag =>
    if ¬ fgdsUseDevice env i then ctrlLoop rest ctrl flag
    else
      let bus := env.gpuInfoTable i / 256 % 256
      let fn := env.gpuInfoTable i % 256
      match env.pciGet 0 bus fn with
      | none => ⟨-1, ctrl.set i { ctrl.gpuDev i with dev := none }, []⟩
      | some d =>
        let mem := { largestBar d (ctrl.gpuDev i).mem with remap := false }
        let (ret, mem') := fgdsDevmMemremap (env.platform i) mem
        let remapped := memremapEvents (env.platform i) i ret
        if ret ≠ 0 then
          let res := ctrlLoop rest (ctrl.set i ⟨none, i, false, mem'⟩) flag
          { res with
            events := .acquire (.pciRef d) :: remapped ++ .release (.pciRef d) :: res.events }
        else
          let res := ctrlLoop rest (ctrl.set i ⟨some d, i, true, mem'⟩) 0
          { res with events := .acquire (.pciRef d) :: remapped ++ res.events }

/-- `fgds_ctrl_init`. -/
def fgdsCtrlInit (ctrl : Ctrl) (devNum : Nat) : LoadResult :=
  if env.useAllGpus = false ∧ env.gpuids.length = 0 then ⟨-eInval, ctrl, []⟩
  else ctrlLoop env (List.range devNum) { ctrl with devNum } (-1)

/-! ## `fgds_cdev_init` -/

/-- `fgds_cdev_add`. -/
def fgdsCdevAdd (i : Nat) : Int :=
  if env.devSetName i ≠ 0 then env.devSetName i else env.cdevDeviceAdd i

def cdevLoop (ctrl : Ctrl) : List Nat → Int × List (Event Resource)
  | [] => (0, [])
  | i :: rest =>
    if ¬ fgdsUseDevice env i then cdevLoop ctrl rest
    else if ¬ (ctrl.gpuDev i).mem.remap then cdevLoop ctrl rest
    else if fgdsCdevAdd env i ≠ 0 then
      (fgdsCdevAdd env i, [.release (.chrdevRegion ctrl.devNum), .release .chrClass])
    else
      let (ret, es) := cdevLoop ctrl rest
      (ret, .acquire (.cdev i) :: es)

/-- `fgds_cdev_init`. Its labels call `class_destroy` on NULL or on an error pointer if
there is no class, which does nothing. -/
def fgdsCdevInit (ctrl : Ctrl) : Int × List (Event Resource) :=
  if env.allocChrdevRegion < 0 then (env.allocChrdevRegion, [])
  else if env.classCreate ≠ 0 then
    (env.classCreate,
      [.acquire (.chrdevRegion ctrl.devNum), .release (.chrdevRegion ctrl.devNum)])
  else
    let (ret, es) := cdevLoop env ctrl (List.range ctrl.devNum)
    (ret, .acquire (.chrdevRegion ctrl.devNum) :: .acquire .chrClass :: es)

/-! ## `fgds_init` -/

/-- `MAX_DEV_NUM`. -/
def maxDevNum : Nat := 16

/-- The GPUs are counted up to the first empty entry of the table. -/
def gpuCount : Nat :=
  ((List.range maxDevNum).takeWhile fun i => env.gpuInfoTable i ≠ 0).length

/-- `fgds_init`. -/
def fgdsInit : LoadResult :=
  let symbols := nvfsNvidiaP2pInit env
  if symbols.1 ≠ 0 then ⟨-1, ctrlZero, symbols.2⟩
  else if gpuCount env = 0 then ⟨-1, ctrlZero, symbols.2⟩
  else
    let res := fgdsCtrlInit env ctrlZero (gpuCount env)
    if res.ret ≠ 0 then ⟨-1, res.ctrl, symbols.2 ++ res.events⟩
    else
      let cdevs := fgdsCdevInit env res.ctrl
      if cdevs.1 ≠ 0 then ⟨-1, res.ctrl, symbols.2 ++ res.events ++ cdevs.2⟩
      else ⟨0, res.ctrl, symbols.2 ++ res.events ++ cdevs.2⟩

end CtrlInit

/-! ## The symbol lookup -/

section Proofs

variable {env : LoadEnv}

theorem p2pInitLoop_found {l : List P2pSymbol} (h : ∀ s ∈ l, env.symbolGet s = true)
    (found : List P2pSymbol) :
    p2pInitLoop env l found = (0, (l.map Resource.symbol).map .acquire) := by
  induction l generalizing found with
  | nil => rfl
  | cons s l ih =>
    have hs := h s List.mem_cons_self
    have hl := ih fun s' hs' => h s' (List.mem_cons_of_mem s hs')
    simp only [p2pInitLoop, hs, ↓reduceIte, hl, List.map_cons]

/-- The lookups before the first failure, and their undoing. -/
theorem p2pInitLoop_missing {l : List P2pSymbol} {s : P2pSymbol} (hs : s ∈ l)
    (h : env.symbolGet s = false) (found : List P2pSymbol) :
    ∃ got, p2pInitLoop env l found =
      (-1, (got.map Resource.symbol).map .acquire ++
        ((found ++ got).map Resource.symbol).map .release) := by
  induction l generalizing found with
  | nil => cases hs
  | cons t l ih =>
    cases ht : env.symbolGet t with
    | false => exact ⟨[], by simp [p2pInitLoop, ht]⟩
    | true =>
      have hmem : s ∈ l := by
        rcases List.mem_cons.mp hs with rfl | hs
        · rw [h] at ht
          cases ht
        · exact hs
      obtain ⟨got, hgot⟩ := ih hmem (found ++ [t])
      refine ⟨t :: got, ?_⟩
      simp only [p2pInitLoop, ht, ↓reduceIte, hgot]
      simp

theorem mem_p2pSymbols (s : P2pSymbol) : s ∈ p2pSymbols := by cases s <;> decide

theorem p2pInit_found (h : ∀ s, env.symbolGet s = true) :
    nvfsNvidiaP2pInit env = (0, (p2pSymbols.map Resource.symbol).map .acquire) :=
  p2pInitLoop_found (fun s _ => h s) []

theorem p2pInit_missing {s : P2pSymbol} (h : env.symbolGet s = false) :
    (nvfsNvidiaP2pInit env).1 = -1 ∧ Neutral (nvfsNvidiaP2pInit env).2 := by
  obtain ⟨got, hgot⟩ := p2pInitLoop_missing (mem_p2pSymbols s) h []
  rw [nvfsNvidiaP2pInit, hgot]
  exact ⟨rfl, neutral_undo _⟩

/-! ## The rest of the load -/

/-- No event of the list is about a symbol. -/
def KeepsSymbols (es : List (Event Resource)) : Prop :=
  ∀ e ∈ es, ∀ s, e ≠ .acquire (.symbol s) ∧ e ≠ .release (.symbol s)

theorem keepsSymbols_nil : KeepsSymbols [] := fun e he => by cases he

theorem keepsSymbols_append {es fs : List (Event Resource)} (hes : KeepsSymbols es)
    (hfs : KeepsSymbols fs) : KeepsSymbols (es ++ fs) := by
  intro e he
  rcases List.mem_append.mp he with he | he
  · exact hes e he
  · exact hfs e he

theorem keepsSymbols_cons {e : Event Resource} {es : List (Event Resource)}
    (he : ∀ s, e ≠ .acquire (.symbol s) ∧ e ≠ .release (.symbol s)) (hes : KeepsSymbols es) :
    KeepsSymbols (e :: es) := by
  intro e' he'
  rcases List.mem_cons.mp he' with rfl | he'
  · exact he
  · exact hes e' he'

theorem memremapEvents_symbols (p : Platform) (i : Nat) (ret : Int) :
    KeepsSymbols (memremapEvents p i ret) := by
  unfold memremapEvents
  split
  · exact keepsSymbols_nil
  · split
    · exact keepsSymbols_cons (by simp) (keepsSymbols_cons (by simp) keepsSymbols_nil)
    · exact keepsSymbols_cons (by simp) (keepsSymbols_cons (by simp) keepsSymbols_nil)

theorem ctrlLoop_symbols (l : List Nat) (ctrl : Ctrl) (flag : Int) :
    KeepsSymbols (ctrlLoop env l ctrl flag).events := by
  induction l generalizing ctrl flag with
  | nil => exact keepsSymbols_nil
  | cons i l ih =>
    rw [ctrlLoop]
    split
    · exact ih ctrl flag
    · dsimp only
      cases hpci : env.pciGet 0 (env.gpuInfoTable i / 256 % 256) (env.gpuInfoTable i % 256) with
      | none => exact keepsSymbols_nil
      | some d =>
        dsimp only
        split
        · refine keepsSymbols_cons (by simp) (keepsSymbols_append (memremapEvents_symbols _ _ _) ?_)
          exact keepsSymbols_cons (by simp) (ih _ _)
        · exact keepsSymbols_cons (by simp)
            (keepsSymbols_append (memremapEvents_symbols _ _ _) (ih _ _))

theorem fgdsCtrlInit_symbols (ctrl : Ctrl) (devNum : Nat) :
    KeepsSymbols (fgdsCtrlInit env ctrl devNum).events := by
  unfold fgdsCtrlInit
  split
  · exact keepsSymbols_nil
  · exact ctrlLoop_symbols _ _ _

theorem cdevLoop_symbols (ctrl : Ctrl) (l : List Nat) :
    KeepsSymbols (cdevLoop env ctrl l).2 := by
  induction l with
  | nil => exact keepsSymbols_nil
  | cons i l ih =>
    rw [cdevLoop]
    split
    · exact ih
    · split
      · exact ih
      · split
        · exact keepsSymbols_cons (by simp) (keepsSymbols_cons (by simp) keepsSymbols_nil)
        · exact keepsSymbols_cons (by simp) ih

theorem fgdsCdevInit_symbols (ctrl : Ctrl) : KeepsSymbols (fgdsCdevInit env ctrl).2 := by
  unfold fgdsCdevInit
  split
  · exact keepsSymbols_nil
  · split
    · exact keepsSymbols_cons (by simp) (keepsSymbols_cons (by simp) keepsSymbols_nil)
    · exact keepsSymbols_cons (by simp) (keepsSymbols_cons (by simp) (cdevLoop_symbols ctrl _))

/-! ## A failed load -/

/-- Once the symbols are found each of them stays referenced, whatever happens next. -/
theorem fgdsInit_symbols (h : ∀ s, env.symbolGet s = true) (s : P2pSymbol) :
    net (fgdsInit env).events (.symbol s) = 1 := by
  obtain ⟨es, hes, hkeep⟩ : ∃ es, (fgdsInit env).events =
      (p2pSymbols.map Resource.symbol).map .acquire ++ es ∧ KeepsSymbols es := by
    simp only [fgdsInit, p2pInit_found h, ne_eq, not_true_eq_false, ↓reduceIte]
    have hctrl : KeepsSymbols (fgdsCtrlInit env ctrlZero (gpuCount env)).events :=
      fgdsCtrlInit_symbols _ _
    split
    · exact ⟨[], by simp, keepsSymbols_nil⟩
    · split
      · exact ⟨_, rfl, hctrl⟩
      · split
        · exact ⟨_, List.append_assoc _ _ _,
            keepsSymbols_append hctrl (fgdsCdevInit_symbols _)⟩
        · exact ⟨_, List.append_assoc _ _ _,
            keepsSymbols_append hctrl (fgdsCdevInit_symbols _)⟩
  rw [hes, net_append, net_of_unmentioned fun e he => hkeep e he s]
  cases s <;> decide

/-- **A failed load.** `fgds_init` fails and has given back everything it acquired if and
only if the lookup of a symbol failed: any later failure keeps something. -/
theorem init_failed_iff (env : LoadEnv) :
    (fgdsInit env).ret ≠ 0 ∧ Neutral (fgdsInit env).events ↔ ∃ s, env.symbolGet s = false := by
  constructor
  · rintro ⟨_, hneutral⟩
    by_contra hall
    have hfound : ∀ s, env.symbolGet s = true := by simpa using hall
    have hone := fgdsInit_symbols hfound .getPages
    rw [hneutral] at hone
    cases hone
  · rintro ⟨s, hs⟩
    obtain ⟨hret, hneutral⟩ := p2pInit_missing hs
    simpa [fgdsInit, hret] using hneutral

/-- One GPU with a BAR of 64MB at 4GB, which can be remapped; then no character device
numbers are left. -/
def noRegionEnv : LoadEnv where
  symbolGet _ := true
  gpuInfoTable i := if i = 0 then 256 else 0
  useAllGpus := true
  gpuids := []
  pciGet _ bus devfn := some ⟨0, bus, devfn, [(4294967296, 67108864)]⟩
  platform _ := ⟨true, true, fun _ _ _ => some 4096, fun _ _ => true, fun _ => 0⟩
  allocChrdevRegion := -16
  classCreate := 0
  devSetName _ := 0
  cdevDeviceAdd _ := 0

/-- The symbols, the PCI reference and the page map of the BAR stay. -/
theorem init_failed_keeps :
    (fgdsInit noRegionEnv).ret = -1 ∧
      net (fgdsInit noRegionEnv).events (.symbol .getPages) = 1 ∧
      net (fgdsInit noRegionEnv).events (.pciRef ⟨0, 1, 0, [(4294967296, 67108864)]⟩) = 1 ∧
      net (fgdsInit noRegionEnv).events (.pageMap 0) = 1 := by
  decide

end Proofs

end Fgds.ModuleInit
