import Fgds.Lib.ExchangeSort
import Fgds.ModuleInit

/-!
# The table of GPUs

The module numbers the GPUs in the order of their PCI addresses, as CUDA does. It packs the
address of each device into a number, takes the numbers apart again and sorts by the parts. The
domain is packed from bit 32 on, but taken out from bit 24 on, with 16 bits; so only the low eight
bits of it take part in the order.

* `nvfsPdevinfo_eq`, `gpuInfo_pdevinfo`: what is packed, and what is taken out;
* `pciLt_iff`: the packed numbers have the order of the addresses;
* `gpu_order_iff`: the table is in PCI order for every order of enumeration if and only if the
  devices have the same order by the low eight bits of the domain;
* `gpu_order_reversed`: a device of the domain 256 and one of the domain 1.
-/

namespace Fgds.Pci

open Fgds.Lib.CInt Fgds.Lib.ExchangeSort Fgds.ModuleInit

/-! ## Packing an address -/

/-- `PCI_DEVID`. -/
def pciDevid (bus devfn : Nat) : Nat := bus <<< 8 ||| devfn

/-- `nvfs_pdevinfo` of a device on a bus. -/
def nvfsPdevinfo (d : PciDev) : Nat := u64 (u32 d.domain <<< 32 : Nat) ||| pciDevid d.bus d.devfn

/-- A device that `pci_get_class` returns; one without a bus has no address. -/
structure Probe where
  dev : PciDev
  onBus : Bool
  devClass : Nat
  vendor : Nat

/-! ## `__nvfs_find_all_device_paths` -/

/-- `MAX_GPU_DEVS`. -/
def maxGpuDevs : Nat := 64

def pciVendorIdNvidia : Nat := 0x10de

def pciClassDisplayVga : Nat := 0x0300

def pciClassDisplay3d : Nat := 0x0302

/-- `PCI_DEV_GPU`. -/
def pciDevGpu (devClass vendor : Nat) : Bool :=
  vendor == pciVendorIdNvidia && (devClass == pciClassDisplayVga || devClass == pciClassDisplay3d)

/-- The first loop, with `temp_info` so far; `none` if it gives up. -/
def collect (devClass : Nat) : List Probe → List Nat → Option (List Nat)
  | [], tempInfo => some tempInfo
  | p :: rest, tempInfo =>
    if ¬ p.onBus then collect devClass rest tempInfo
    else if p.devClass ≠ devClass then none
    else if pciDevGpu (devClass >>> 8) p.vendor then
      collect devClass rest (tempInfo ++ [nvfsPdevinfo p.dev])
    else collect devClass rest tempInfo

/-- `struct gpu_info`. -/
structure GpuInfo where
  pdevinfo : Nat
  domain : Nat
  bus : Nat
  slot : Nat
  func : Nat
  deriving DecidableEq, Repr

/-- The parts of a packed address, as the second loop takes them out. -/
def gpuInfo (info : Nat) : GpuInfo where
  pdevinfo := info
  domain := info >>> 24 &&& 0xffff
  bus := info >>> 16 &&& 0xff
  slot := info >>> 8 &&& 0xff
  func := info &&& 0xff

/-- The condition under which two entries are exchanged. -/
def GpuInfo.after (a b : GpuInfo) : Bool :=
  a.domain > b.domain ||
  a.domain == b.domain && a.bus > b.bus ||
  a.domain == b.domain && a.bus == b.bus && a.slot > b.slot ||
  a.domain == b.domain && a.bus == b.bus && a.slot == b.slot && a.func > b.func

/-- `__nvfs_find_all_device_paths`: the entries of `gpu_info_table`. -/
def nvfsFindAllDevicePaths (found : List Probe) (devClass : Nat) : List Nat :=
  match collect devClass found [] with
  | none => []
  | some tempInfo => (exchangeSort GpuInfo.after (tempInfo.map gpuInfo)).map GpuInfo.pdevinfo

/-- `gpu_info_table` after `nvfs_fill_gpu2peer_distance_table_once`. -/
def gpuInfoTable (found : List Probe) (i : Nat) : Nat :=
  (nvfsFindAllDevicePaths found (pciClassDisplay3d <<< 8)).getD i 0

/-! ## The order of the GPUs -/

/-- The parts of an address have 32, 8, 5 and 3 bits; device and function are `devfn`. -/
structure Address (d : PciDev) : Prop where
  domain : d.domain < 2 ^ 32
  bus : d.bus < 2 ^ 8
  devfn : d.devfn < 2 ^ 8

def SameAddress (a b : PciDev) : Prop :=
  a.domain = b.domain ∧ a.bus = b.bus ∧ a.devfn = b.devfn

/-- The lexicographic order of (domain, bus, device, function). -/
def PciLt (a b : PciDev) : Prop :=
  a.domain < b.domain ∨ a.domain = b.domain ∧ (a.bus < b.bus ∨ a.bus = b.bus ∧
    (a.devfn / 8 < b.devfn / 8 ∨ a.devfn / 8 = b.devfn / 8 ∧ a.devfn % 8 < b.devfn % 8))

/-- The order of (domain modulo 256, bus, device, function). -/
def SortLt (a b : PciDev) : Prop :=
  a.domain % 256 < b.domain % 256 ∨ a.domain % 256 = b.domain % 256 ∧ (a.bus < b.bus ∨
    a.bus = b.bus ∧ a.devfn < b.devfn)

instance : DecidableRel SameAddress := fun _ _ => inferInstanceAs (Decidable (_ ∧ _))

instance : DecidableRel PciLt := fun _ _ => inferInstanceAs (Decidable (_ ∨ _))

instance : DecidableRel SortLt := fun _ _ => inferInstanceAs (Decidable (_ ∨ _))

/-- The NVIDIA GPUs of a machine, in the order in which they are enumerated. -/
structure Gpus where
  devs : List PciDev
  address : ∀ d ∈ devs, Address d
  distinct : devs.Pairwise fun a b => ¬ SameAddress a b
  count : devs.length ≤ maxGpuDevs

/-- `pci_get_class` finds them as 3D controllers. -/
def Gpus.probes (g : Gpus) : List Probe :=
  g.devs.map fun d => ⟨d, true, pciClassDisplay3d <<< 8, pciVendorIdNvidia⟩

def Gpus.table (g : Gpus) : List Nat :=
  nvfsFindAllDevicePaths g.probes (pciClassDisplay3d <<< 8)

/-- The table holds the packed addresses of the GPUs in ascending order. -/
def Gpus.Ordered (g : Gpus) : Prop :=
  ∃ ds : List PciDev, ds.Perm g.devs ∧ g.table = ds.map nvfsPdevinfo ∧ ds.Pairwise PciLt

/-! ## Packed numbers -/

section Packed

variable {a b d : PciDev}

theorem pciDevid_eq {bus devfn : Nat} (h : devfn < 2 ^ 8) :
    pciDevid bus devfn = bus * 256 + devfn := by
  rw [pciDevid, ← Nat.shiftLeft_add_eq_or_of_lt h, Nat.shiftLeft_eq]

theorem nvfsPdevinfo_eq (h : Address d) :
    nvfsPdevinfo d = d.domain * 2 ^ 32 + (d.bus * 256 + d.devfn) := by
  have hdomain := h.domain
  have hbus := h.bus
  have hdevfn := h.devfn
  have h32 : u32 d.domain = d.domain := u32_eq rfl hdomain
  have h64 : u64 (d.domain <<< 32 : Nat) = d.domain <<< 32 := by
    refine u64_eq rfl ?_
    rw [Nat.shiftLeft_eq]
    omega
  have hlow : d.bus * 256 + d.devfn < 2 ^ 32 := by omega
  rw [nvfsPdevinfo, h32, h64, pciDevid_eq hdevfn, ← Nat.shiftLeft_add_eq_or_of_lt hlow,
    Nat.shiftLeft_eq]

/-- What the second loop takes out: the domain has lost all but eight bits, the bus is empty, and
bus and `devfn` are in the places of slot and function. -/
theorem gpuInfo_pdevinfo (h : Address d) :
    gpuInfo (nvfsPdevinfo d) =
      ⟨nvfsPdevinfo d, d.domain % 256 * 256, 0, d.bus, d.devfn⟩ := by
  have hbus := h.bus
  have hdevfn := h.devfn
  have hmask16 : ∀ x : Nat, x &&& 0xffff = x % 65536 := fun x => Nat.and_two_pow_sub_one_eq_mod x 16
  have hmask8 : ∀ x : Nat, x &&& 0xff = x % 256 := fun x => Nat.and_two_pow_sub_one_eq_mod x 8
  simp only [gpuInfo, hmask16, hmask8, Nat.shiftRight_eq_div_pow, nvfsPdevinfo_eq h,
    GpuInfo.mk.injEq, true_and]
  refine ⟨?_, ?_, ?_, ?_⟩ <;> omega

/-- The packed numbers have the order of the addresses. -/
theorem pciLt_iff (ha : Address a) (hb : Address b) :
    PciLt a b ↔ nvfsPdevinfo a < nvfsPdevinfo b := by
  have ha' := ha.bus
  have ha'' := ha.devfn
  have hb' := hb.bus
  have hb'' := hb.devfn
  rw [nvfsPdevinfo_eq ha, nvfsPdevinfo_eq hb]
  unfold PciLt
  omega

theorem after_iff (ha : Address a) (hb : Address b) :
    (gpuInfo (nvfsPdevinfo a)).after (gpuInfo (nvfsPdevinfo b)) = true ↔ SortLt b a := by
  rw [gpuInfo_pdevinfo ha, gpuInfo_pdevinfo hb]
  simp only [GpuInfo.after, SortLt, Bool.or_eq_true, Bool.and_eq_true, decide_eq_true_eq,
    beq_iff_eq, and_true]
  omega

end Packed

/-- The exchange condition compares the parts lexicographically. -/
def GpuInfo.key (a : GpuInfo) : ℕ ×ₗ ℕ ×ₗ ℕ ×ₗ ℕ :=
  toLex (a.domain, toLex (a.bus, toLex (a.slot, a.func)))

theorem after_eq_true (a b : GpuInfo) : a.after b = true ↔ b.key < a.key := by
  simp only [GpuInfo.after, GpuInfo.key, Prod.Lex.toLex_lt_toLex, Bool.or_eq_true,
    Bool.and_eq_true, decide_eq_true_eq, beq_iff_eq, eq_comm (a := b.domain),
    eq_comm (a := b.bus), eq_comm (a := b.slot)]
  tauto

theorem after_eq_false (a b : GpuInfo) : a.after b = false ↔ a.key ≤ b.key := by
  rw [← Bool.not_eq_true, after_eq_true, not_lt]

theorem after_trans (a b c : GpuInfo) (hab : a.after b = false) (hbc : b.after c = false) :
    a.after c = false := by
  rw [after_eq_false] at *
  exact hab.trans hbc

theorem after_total (a b : GpuInfo) (hab : a.after b = true) : b.after a = false := by
  rw [after_eq_true] at hab
  rw [after_eq_false]
  exact hab.le

/-! ## The table -/

theorem collect_gpus (ds : List PciDev) (tempInfo : List Nat) :
    collect (pciClassDisplay3d <<< 8)
      (ds.map fun d => ⟨d, true, pciClassDisplay3d <<< 8, pciVendorIdNvidia⟩) tempInfo =
      some (tempInfo ++ ds.map nvfsPdevinfo) := by
  induction ds generalizing tempInfo with
  | nil => simp [collect]
  | cons d ds ih =>
    have hgpu : pciDevGpu ((pciClassDisplay3d <<< 8) >>> 8) pciVendorIdNvidia = true := by decide
    rw [List.map_cons, collect, if_neg (by simp), if_neg (by simp), if_pos hgpu, ih]
    simp

/-- Which of two devices is exchanged with the other. -/
def afterDev (a b : PciDev) : Bool :=
  (gpuInfo (nvfsPdevinfo a)).after (gpuInfo (nvfsPdevinfo b))

/-- The GPUs in the order of the table. -/
def Gpus.sorted (g : Gpus) : List PciDev := exchangeSort afterDev g.devs

theorem Gpus.table_eq (g : Gpus) : g.table = g.sorted.map nvfsPdevinfo := by
  unfold Gpus.table nvfsFindAllDevicePaths Gpus.probes
  rw [collect_gpus]
  simp only [List.nil_append, List.map_map]
  rw [exchangeSort_map]
  simp only [List.map_map]
  rfl

theorem Gpus.sorted_perm (g : Gpus) : g.sorted.Perm g.devs := exchangeSort_perm _ _

theorem Gpus.sorted_address (g : Gpus) {d : PciDev} (hd : d ∈ g.sorted) : Address d :=
  g.address d (g.sorted_perm.mem_iff.mp hd)

/-- No GPU of the table comes after a later one by the low bits of the domain. -/
theorem Gpus.sorted_pairwise (g : Gpus) : g.sorted.Pairwise fun a b => ¬ SortLt b a := by
  have htrans : ∀ a b c, afterDev a b = false → afterDev b c = false → afterDev a c = false :=
    fun a b c hab hbc => after_trans _ _ _ hab hbc
  have htotal : ∀ a b, afterDev a b = true → afterDev b a = false :=
    fun a b hab => after_total _ _ hab
  have hsorted : g.sorted.Pairwise fun a b => afterDev a b = false :=
    exchangeSort_sorted htrans htotal g.devs
  refine hsorted.imp_of_mem fun ha hb hab hlt => ?_
  have hgt := (after_iff (g.sorted_address ha) (g.sorted_address hb)).mpr hlt
  rw [afterDev, hgt] at hab
  cases hab

/-- The table is in PCI order if and only if the sorted devices are. -/
theorem Gpus.ordered_iff (g : Gpus) : g.Ordered ↔ g.sorted.Pairwise PciLt := by
  constructor
  · rintro ⟨ds, hperm, htable, hds⟩
    have hnum : (g.sorted.map nvfsPdevinfo).Pairwise (· < ·) := by
      rw [← g.table_eq, htable, List.pairwise_map]
      refine hds.imp_of_mem fun ha hb hab => ?_
      exact (pciLt_iff (g.address _ (hperm.mem_iff.mp ha))
        (g.address _ (hperm.mem_iff.mp hb))).mp hab
    rw [List.pairwise_map] at hnum
    exact hnum.imp_of_mem fun ha hb hab =>
      (pciLt_iff (g.sorted_address ha) (g.sorted_address hb)).mpr hab
  · intro h
    exact ⟨g.sorted, g.sorted_perm, g.table_eq, h⟩

/-- A list in which no device comes after a later one by the low bits stays as it is. -/
theorem Gpus.sorted_eq_self (g : Gpus) (h : g.devs.Pairwise fun a b => ¬ SortLt b a) :
    g.sorted = g.devs := by
  refine exchangeSort_eq_self (h.imp_of_mem fun ha hb hab => ?_)
  rw [← Bool.not_eq_true, afterDev, after_iff (g.address _ ha) (g.address _ hb)]
  exact hab

theorem PciLt.asymm {a b : PciDev} (h : PciLt a b) : ¬ PciLt b a := by
  unfold PciLt at *
  omega

theorem SameAddress.symm {a b : PciDev} (h : SameAddress a b) : SameAddress b a :=
  ⟨h.1.symm, h.2.1.symm, h.2.2.symm⟩

/-- The same GPUs, enumerated in another order. -/
def Gpus.reorder (g : Gpus) (ds : List PciDev) (h : ds.Perm g.devs) : Gpus where
  devs := ds
  address d hd := g.address d (h.mem_iff.mp hd)
  distinct := (h.pairwise_iff fun hab hba => hab hba.symm).mpr g.distinct
  count := h.length_eq ▸ g.count

/-! ## The order of the table -/

theorem pciLt_or {a b : PciDev} (h : ¬ SameAddress a b) : PciLt a b ∨ PciLt b a := by
  unfold PciLt SameAddress at *
  omega

/-- Two devices with one key may change places in a list sorted by the keys. -/
theorem exchange_tied {a b : PciDev} {l₁ l₂ l₃ : List PciDev} (hab : ¬ SortLt a b)
    (hba : ¬ SortLt b a) (h : (l₁ ++ a :: (l₂ ++ b :: l₃)).Pairwise fun x y => ¬ SortLt y x) :
    (l₁ ++ b :: (l₂ ++ a :: l₃)).Pairwise fun x y => ¬ SortLt y x := by
  have hleft : ∀ x, SortLt x a ↔ SortLt x b := by
    intro x
    unfold SortLt at *
    omega
  have hright : ∀ x, SortLt a x ↔ SortLt b x := by
    intro x
    unfold SortLt at *
    omega
  simp only [List.pairwise_append, List.pairwise_cons, List.mem_append, List.mem_cons] at h ⊢
  simp only [hleft] at h ⊢
  grind

/-- Of two devices of a list in PCI order, the smaller comes first. -/
theorem split_of_pciLt {ds : List PciDev} {a b : PciDev} (hds : ds.Pairwise PciLt) (ha : a ∈ ds)
    (hb : b ∈ ds) (hab : PciLt a b) : ∃ l₁ l₂ l₃, ds = l₁ ++ a :: (l₂ ++ b :: l₃) := by
  obtain ⟨l₁, l, rfl⟩ := List.append_of_mem ha
  rcases List.mem_append.mp hb with hb | hb
  · exact absurd ((List.pairwise_append.mp hds).2.2 b hb a List.mem_cons_self) hab.asymm
  · rcases List.mem_cons.mp hb with rfl | hb
    · exact absurd hab hab.asymm
    · obtain ⟨l₂, l₃, rfl⟩ := List.append_of_mem hb
      exact ⟨l₁, l₂, l₃, rfl⟩

/-- If the low bits do not put `a` before `b`, some order of enumeration leaves the table out of
PCI order. -/
theorem Gpus.sortLt_of_ordered (g : Gpus) (hall : ∀ h : Gpus, h.devs.Perm g.devs → h.Ordered)
    {a b : PciDev} (ha : a ∈ g.devs) (hb : b ∈ g.devs) (hab : PciLt a b) : SortLt a b := by
  have hlt : g.sorted.Pairwise PciLt := g.ordered_iff.mp (hall g (List.Perm.refl _))
  obtain ⟨l₁, l₂, l₃, hsplit⟩ := split_of_pciLt hlt (g.sorted_perm.mem_iff.mpr ha)
    (g.sorted_perm.mem_iff.mpr hb) hab
  have hkeys := g.sorted_pairwise
  rw [hsplit] at hkeys
  have hba : ¬ SortLt b a := by
    have htail := (List.pairwise_append.mp hkeys).2.1
    exact List.rel_of_pairwise_cons htail (by simp)
  by_contra htied
  -- The two devices have one key: enumerated in the other order they stay in the other order.
  have hperm : (l₁ ++ b :: (l₂ ++ a :: l₃)).Perm g.devs := by
    refine List.Perm.trans ?_ g.sorted_perm
    rw [hsplit]
    refine List.Perm.append_left l₁ ?_
    refine (List.Perm.cons b List.perm_middle).trans ((List.Perm.swap a b _).trans ?_)
    exact List.Perm.cons a List.perm_middle.symm
  have hordered := (g.reorder _ hperm).ordered_iff.mp (hall _ hperm)
  rw [Gpus.sorted_eq_self _ (exchange_tied htied hba hkeys)] at hordered
  have hlast := (List.pairwise_append.mp hordered).2.1
  exact hab.asymm (List.rel_of_pairwise_cons hlast (by simp))

/-- The table is in PCI order for every order of enumeration if and only if the low eight bits of
the domain, the bus and `devfn` order the devices as the whole address does. -/
theorem gpu_order_iff (g : Gpus) :
    (∀ h : Gpus, h.devs.Perm g.devs → h.Ordered) ↔
      ∀ a ∈ g.devs, ∀ b ∈ g.devs, PciLt a b → SortLt a b := by
  constructor
  · intro hall a ha b hb hab
    exact g.sortLt_of_ordered hall ha hb hab
  · intro hsort h hperm
    rw [h.ordered_iff]
    have hdistinct : h.sorted.Pairwise fun a b => ¬ SameAddress a b :=
      (h.reorder h.sorted h.sorted_perm).distinct
    refine (h.sorted_pairwise.and hdistinct).imp_of_mem fun {a b} ha hb hab => ?_
    have ha' : a ∈ g.devs := hperm.mem_iff.mp (h.sorted_perm.mem_iff.mp ha)
    have hb' : b ∈ g.devs := hperm.mem_iff.mp (h.sorted_perm.mem_iff.mp hb)
    rcases pciLt_or hab.2 with hlt | hlt
    · exact hlt
    · exact absurd (hsort b hb' a ha' hlt) hab.1

/-- Two GPUs, in the domains 256 and 1. -/
def farDomains : Gpus where
  devs := [⟨256, 0, 0, []⟩, ⟨1, 0, 0, []⟩]
  address d hd := by
    simp only [List.mem_cons, List.not_mem_nil, or_false] at hd
    rcases hd with rfl | rfl <;> exact ⟨by decide, by decide, by decide⟩
  distinct := by decide
  count := by decide

/-- The domain 256 counts as 0 and comes first. -/
theorem gpu_order_reversed :
    farDomains.table = [256 * 2 ^ 32, 1 * 2 ^ 32] ∧ ¬ farDomains.Ordered := by
  have hsorted : farDomains.sorted = farDomains.devs := by decide
  refine ⟨by decide, fun hordered => ?_⟩
  have hlt := farDomains.ordered_iff.mp hordered
  rw [hsorted] at hlt
  exact absurd hlt (by decide)

end Fgds.Pci
