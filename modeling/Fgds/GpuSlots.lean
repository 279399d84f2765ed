import Fgds.ModuleExit
import Fgds.Pci

/-!
# From the table to the devices

`fgds_ctrl_init` takes the bus and `devfn` of each selected GPU out of `gpu_info_table` and looks
the PCI device up again, in domain 0. The start and the length of the largest BAR of that device
are recorded in `gpu_dev[i]`. Two other places of the module take a packed address apart.

* `pciInfoArgs_pdevinfo`, `nvfsGetPdevFromPdevinfo_eq`: these two agree with the packing;
* `largestBar_largest`: what the loop over the BARs finds;
* `ctrlLoop_filled`: what a load that succeeds has filled the slots from;
* `slot_bound_iff`: a slot is bound to its GPU if and only if the domain of the GPU is 0;
* `slot_bound_other`: a GPU in domain 1, and a slot bound to the host bridge.
-/

namespace Fgds.GpuSlots

open Fgds.Lib.CInt Fgds.Remap Fgds.ModuleInit Fgds.ModuleExit Fgds.Pci

/-! ## The machine -/

/-- The PCI devices of a machine: its GPUs and the others. `pci_resource_len` is 0 for a BAR that
does not exist, and its start is 0 then. -/
structure Machine where
  gpus : Gpus
  others : List PciDev
  address : ∀ d ∈ others, Address d
  distinct : (gpus.devs ++ others).Pairwise fun a b => ¬ SameAddress a b
  bars : ∀ d ∈ gpus.devs ++ others, d.bars.length = pciStdNumBars ∧
    ∀ bar ∈ d.bars, bar.2 = 0 → bar.1 = 0

def Machine.devs (m : Machine) : List PciDev := m.gpus.devs ++ m.others

/-- `pci_get_domain_bus_and_slot`: the domain is an `int`. -/
def Machine.pciGetDomainBusAndSlot (m : Machine) (domain bus devfn : Int) : Option PciDev :=
  m.devs.find? fun d => s32 d.domain = domain ∧ d.bus = bus ∧ d.devfn = devfn

/-- The load of the module on a machine; the rest of the kernel is arbitrary. -/
def Machine.load (m : Machine) (env : LoadEnv) : LoadEnv :=
  { env with
    gpuInfoTable := gpuInfoTable m.gpus.probes
    pciGet := fun domain bus devfn => m.pciGetDomainBusAndSlot (s32 domain) bus devfn }

/-! ## Taking a packed address apart -/

/-- `PCI_SLOT`. -/
def pciSlot (devfn : Nat) : Nat := devfn >>> 3 &&& 0x1f

/-- `PCI_FUNC`. -/
def pciFunc (devfn : Nat) : Nat := devfn &&& 0x07

/-- `PCI_INFO_ARGS`. -/
def pciInfoArgs (info : Nat) : Nat × Nat × Nat × Nat :=
  (u32 (info >>> 32 : Nat), (info % 2 ^ 16) >>> 8, pciSlot (info % 2 ^ 8), pciFunc (info % 2 ^ 8))

/-- `NVFS_PDEVINFO_INFO_MASK`, the complement of `0xFFFF0000` in 64 bits. -/
def nvfsPdevinfoInfoMask : Nat := 2 ^ 64 - 1 - 0xFFFF0000

/-- `nvfs_get_pdev_from_pdevinfo`. -/
def nvfsGetPdevFromPdevinfo (m : Machine) (pdevinfo : Nat) : Option PciDev :=
  let pdevinfo := pdevinfo &&& nvfsPdevinfoInfoMask
  let domain := s32 (pdevinfo >>> 32 : Nat)
  let bus := s32 (u32 pdevinfo >>> 8 : Nat)
  let devfn := s32 (pdevinfo % 2 ^ 8 &&& 0xFF : Nat)
  m.pciGetDomainBusAndSlot domain bus devfn

/-- The device that `fgds_ctrl_init` looks up for `gpu_dev[i]`. -/
def slotDevice (env : LoadEnv) (i : Nat) : Option PciDev :=
  env.pciGet 0 (env.gpuInfoTable i / 256 % 256) (env.gpuInfoTable i % 256)

/-- What it records for the device, before the BAR is remapped. -/
def slotMem (d : PciDev) : FgdsDev := { largestBar d (ctrlZero.gpuDev 0).mem with remap := false }

/-! ## What is expected of a slot -/

/-- A BAR that no BAR of the device is longer than. -/
def IsLargestBar (d : PciDev) (start length : Nat) : Prop :=
  (start, length) ∈ d.bars ∧ ∀ bar ∈ d.bars, bar.2 ≤ length

/-- The device of the table is looked up, and its largest BAR is recorded. -/
def Bound (env : LoadEnv) (i : Nat) : Prop :=
  ∃ d, slotDevice env i = some d ∧ nvfsPdevinfo d = env.gpuInfoTable i ∧
    IsLargestBar d (slotMem d).paddr (slotMem d).size

/-- The other two places find the address that was packed, and the device at it. -/
def DecodersAgree (m : Machine) : Prop :=
  ∀ d ∈ m.devs, pciInfoArgs (nvfsPdevinfo d) = (d.domain, d.bus, d.devfn / 8, d.devfn % 8) ∧
    nvfsGetPdevFromPdevinfo m (nvfsPdevinfo d) = some d

/-- `gpu_dev[i]` holds what `fgds_devm_memremap` has made of the record for `d`; the device itself
is forgotten if the BAR could not be remapped. -/
def FilledFrom (env : LoadEnv) (i : Nat) (d : PciDev) (slot : GpuDev) : Prop :=
  slot.mem = (fgdsDevmMemremap (env.platform i) (slotMem d)).2 ∧
    (slot.dev = some d ∨ slot.dev = none)

/-! ## Lookups by address -/

section Lookup

variable {m : Machine} {d : PciDev}

theorem Machine.devs_address (hd : d ∈ m.devs) : Address d := by
  rcases List.mem_append.mp hd with hd | hd
  · exact m.gpus.address d hd
  · exact m.address d hd

theorem Machine.eq_of_sameAddress {d' : PciDev} (hd : d ∈ m.devs) (hd' : d' ∈ m.devs)
    (h : SameAddress d d') : d = d' := by
  by_contra hne
  have hsymm : Std.Symm fun a b : PciDev => ¬ SameAddress a b := ⟨fun a b hab hba => hab hba.symm⟩
  exact m.distinct.forall hd hd' hne h

/-- The conversion to `int` keeps domains apart. -/
theorem s32_inj {a b : Nat} (ha : a < 2 ^ 32) (hb : b < 2 ^ 32) (h : s32 a = s32 b) : a = b := by
  unfold s32 at h
  omega

theorem Machine.lookup_some {domain bus devfn : Int}
    (h : m.pciGetDomainBusAndSlot domain bus devfn = some d) :
    d ∈ m.devs ∧ s32 d.domain = domain ∧ d.bus = bus ∧ d.devfn = devfn :=
  ⟨List.mem_of_find?_eq_some h, by simpa using List.find?_some h⟩

theorem Machine.lookup_self (hd : d ∈ m.devs) :
    m.pciGetDomainBusAndSlot (s32 d.domain) d.bus d.devfn = some d := by
  cases hfind : m.pciGetDomainBusAndSlot (s32 d.domain) d.bus d.devfn with
  | none =>
    have hnone := List.find?_eq_none.mp hfind d hd
    simp at hnone
  | some d' =>
    obtain ⟨hd', hdomain, hbus, hdevfn⟩ := Machine.lookup_some hfind
    have hdomain := s32_inj (devs_address hd').domain (devs_address hd).domain hdomain
    rw [eq_of_sameAddress hd' hd ⟨hdomain, by omega, by omega⟩]

end Lookup

/-! ## The other two places -/

section Decoders

variable {m : Machine} {d : PciDev}

theorem pciInfoArgs_pdevinfo (h : Address d) :
    pciInfoArgs (nvfsPdevinfo d) = (d.domain, d.bus, d.devfn / 8, d.devfn % 8) := by
  have hdomain := h.domain
  have hbus := h.bus
  have hdevfn := h.devfn
  have hmask5 : ∀ x : Nat, x &&& 0x1f = x % 32 := fun x => Nat.and_two_pow_sub_one_eq_mod x 5
  have hmask3 : ∀ x : Nat, x &&& 0x07 = x % 8 := fun x => Nat.and_two_pow_sub_one_eq_mod x 3
  simp only [pciInfoArgs, pciSlot, pciFunc, hmask5, hmask3, Nat.shiftRight_eq_div_pow,
    nvfsPdevinfo_eq h, Prod.mk.injEq]
  refine ⟨u32_eq ?_ hdomain, ?_, ?_, ?_⟩ <;> omega

/-- The mask clears bits that are not set. -/
theorem pdevinfo_masked (h : Address d) :
    nvfsPdevinfo d &&& nvfsPdevinfoInfoMask = nvfsPdevinfo d := by
  have hbus := h.bus
  have hdevfn := h.devfn
  have hlow : d.bus * 256 + d.devfn < 2 ^ 16 := by omega
  have hmask : nvfsPdevinfoInfoMask = 2 ^ 32 * (2 ^ 32 - 1) + (2 ^ 16 - 1) := by decide
  rw [nvfsPdevinfo_eq h, hmask, Nat.mul_comm]
  refine Nat.eq_of_testBit_eq fun i => ?_
  rw [Nat.testBit_and, Nat.testBit_two_pow_mul_add _ (by omega),
    Nat.testBit_two_pow_mul_add _ (by decide)]
  split
  · rw [← Nat.testBit_and, Nat.and_two_pow_sub_one_of_lt_two_pow hlow]
  · rw [← Nat.testBit_and, Nat.and_two_pow_sub_one_of_lt_two_pow h.domain]

theorem nvfsGetPdevFromPdevinfo_eq (h : Address d) :
    nvfsGetPdevFromPdevinfo m (nvfsPdevinfo d) =
      m.pciGetDomainBusAndSlot (s32 d.domain) d.bus d.devfn := by
  have hdomain := h.domain
  have hbus := h.bus
  have hdevfn := h.devfn
  have hmask8 : ∀ x : Nat, x &&& 0xFF = x % 256 := fun x => Nat.and_two_pow_sub_one_eq_mod x 8
  have h32 : u32 (nvfsPdevinfo d) = d.bus * 256 + d.devfn := by
    rw [nvfsPdevinfo_eq h]
    unfold u32
    omega
  have hb : s32 (u32 (nvfsPdevinfo d) >>> 8 : Nat) = d.bus := by
    rw [h32, Nat.shiftRight_eq_div_pow, s32_eq (by omega) (by omega)]
    omega
  have hf : s32 (nvfsPdevinfo d % 2 ^ 8 &&& 0xFF : Nat) = d.devfn := by
    rw [hmask8, nvfsPdevinfo_eq h, s32_eq (by omega) (by omega)]
    omega
  have hd : nvfsPdevinfo d >>> 32 = d.domain := by
    rw [nvfsPdevinfo_eq h, Nat.shiftRight_eq_div_pow]
    omega
  unfold nvfsGetPdevFromPdevinfo
  rw [pdevinfo_masked h]
  dsimp only
  rw [hb, hf, hd]

theorem decodersAgree (m : Machine) : DecodersAgree m := by
  intro d hd
  have haddress := Machine.devs_address hd
  refine ⟨pciInfoArgs_pdevinfo haddress, ?_⟩
  rw [nvfsGetPdevFromPdevinfo_eq haddress, Machine.lookup_self hd]

end Decoders

/-! ## The loop over the BARs -/

/-- The record is the one from the start or a BAR, and no BAR is longer. -/
theorem foldl_largest (bars : List (Nat × Nat)) (mem : FgdsDev) :
    let res := bars.foldl
      (fun m bar => if bar.2 > m.size then { m with paddr := bar.1, size := bar.2 } else m) mem
    (res = mem ∨ (res.paddr, res.size) ∈ bars) ∧ mem.size ≤ res.size ∧
      ∀ bar ∈ bars, bar.2 ≤ res.size := by
  induction bars generalizing mem with
  | nil => exact ⟨.inl rfl, Nat.le_refl _, by simp⟩
  | cons bar bars ih =>
    dsimp only at ih ⊢
    rw [List.foldl_cons]
    by_cases hlt : bar.2 > mem.size
    · rw [if_pos hlt]
      obtain ⟨hfrom, hle, hall⟩ := ih { mem with paddr := bar.1, size := bar.2 }
      dsimp only at hle
      refine ⟨.inr ?_, by omega, ?_⟩
      · rcases hfrom with heq | hmem
        · rw [heq]
          exact List.mem_cons_self
        · exact List.mem_cons_of_mem bar hmem
      · intro bar' hbar'
        rcases List.mem_cons.mp hbar' with rfl | hbar'
        · exact hle
        · exact hall bar' hbar'
    · rw [if_neg hlt]
      obtain ⟨hfrom, hle, hall⟩ := ih mem
      refine ⟨hfrom.imp_right (List.mem_cons_of_mem bar), hle, ?_⟩
      intro bar' hbar'
      rcases List.mem_cons.mp hbar' with rfl | hbar'
      · omega
      · exact hall bar' hbar'

theorem largestBar_largest {m : Machine} {d : PciDev} (hd : d ∈ m.devs) :
    IsLargestBar d (slotMem d).paddr (slotMem d).size := by
  obtain ⟨hlength, hempty⟩ := m.bars d hd
  have hrecord := foldl_largest d.bars (ctrlZero.gpuDev 0).mem
  have htake : d.bars.take pciStdNumBars = d.bars := by rw [← hlength, List.take_length]
  dsimp only at hrecord
  obtain ⟨hfrom, _, hall⟩ := hrecord
  unfold slotMem largestBar
  rw [htake]
  refine ⟨?_, hall⟩
  rcases hfrom with heq | hmem
  · -- nothing was longer than 0: all BARs are empty, and any of them will do
    rw [heq] at hall ⊢
    obtain ⟨bar, bars, hbars⟩ := List.exists_cons_of_length_pos (l := d.bars) (by
      rw [hlength]
      decide)
    have hfirst : bar ∈ d.bars := by simp [hbars]
    have hzero : bar.2 = 0 := Nat.le_zero.mp (hall bar hfirst)
    have hbar : bar = (0, 0) := Prod.ext (hempty bar hfirst hzero) hzero
    rw [hbar] at hfirst
    exact hfirst
  · exact hmem

/-! ## The slots after the load -/

section Filled

variable {env : LoadEnv}

/-- A selected GPU: the lookup fails, and the load with it; or the slot is filled, and the loop
goes on. -/
theorem ctrlLoop_selected {i : Nat} (huse : fgdsUseDevice env i = true) (rest : List Nat)
    {ctrl : Ctrl} (hfresh : (ctrl.gpuDev i).mem = (ctrlZero.gpuDev 0).mem) (flag : Int) :
    (ctrlLoop env (i :: rest) ctrl flag).ret = -1 ∨
    ∃ d slot flag', slotDevice env i = some d ∧ FilledFrom env i d slot ∧
      (ctrlLoop env (i :: rest) ctrl flag).ret = (ctrlLoop env rest (ctrl.set i slot) flag').ret ∧
      (ctrlLoop env (i :: rest) ctrl flag).ctrl =
        (ctrlLoop env rest (ctrl.set i slot) flag').ctrl := by
  rw [ctrlLoop, if_neg (not_not.mpr huse)]
  dsimp only
  cases hdev : env.pciGet 0 (env.gpuInfoTable i / 256 % 256) (env.gpuInfoTable i % 256) with
  | none => exact .inl rfl
  | some d =>
    dsimp only
    have hmem : { largestBar d (ctrl.gpuDev i).mem with remap := false } = slotMem d := by
      rw [slotMem, hfresh]
    rw [hmem]
    split
    · exact .inr ⟨d, ⟨none, i, false, _⟩, flag, hdev, ⟨rfl, .inr rfl⟩, rfl, rfl⟩
    · exact .inr ⟨d, ⟨some d, i, true, _⟩, 0, hdev, ⟨rfl, .inl rfl⟩, rfl, rfl⟩

/-- After a loop that succeeds each selected slot is filled from the device looked up for it. -/
theorem ctrlLoop_filled {l : List Nat} (hl : l.Nodup) {ctrl : Ctrl} {flag : Int}
    (hfresh : ∀ i ∈ l, (ctrl.gpuDev i).mem = (ctrlZero.gpuDev 0).mem)
    (hret : (ctrlLoop env l ctrl flag).ret = 0) {i : Nat} (hi : i ∈ l)
    (huse : fgdsUseDevice env i = true) :
    ∃ d, slotDevice env i = some d ∧
      FilledFrom env i d ((ctrlLoop env l ctrl flag).ctrl.gpuDev i) := by
  induction l generalizing ctrl flag with
  | nil => cases hi
  | cons j l ih =>
    obtain ⟨hjl, hnodup⟩ := List.nodup_cons.mp hl
    have hrest : ∀ x, ∀ k ∈ l, ((ctrl.set j x).gpuDev k).mem = (ctrlZero.gpuDev 0).mem := by
      intro x k hk
      have hne : k ≠ j := fun h => hjl (h ▸ hk)
      rw [set_gpuDev, if_neg hne]
      exact hfresh k (List.mem_cons_of_mem j hk)
    by_cases hsel : fgdsUseDevice env j = true
    · rcases ctrlLoop_selected hsel l (hfresh j List.mem_cons_self) flag with
        hfail | ⟨d, slot, flag', hdev, hslot, hret', hctrl⟩
      · rw [hfail] at hret
        cases hret
      · rw [hret'] at hret
        rw [hctrl]
        rcases List.mem_cons.mp hi with rfl | hi
        · refine ⟨d, hdev, ?_⟩
          rw [ctrlLoop_frame hjl, set_gpuDev, if_pos rfl]
          exact hslot
        · exact ih hnodup (hrest slot) hret hi
    · have hskip : ctrlLoop env (j :: l) ctrl flag = ctrlLoop env l ctrl flag := by
        rw [ctrlLoop, if_pos hsel]
      rw [hskip] at hret ⊢
      rcases List.mem_cons.mp hi with rfl | hi
      · exact absurd huse hsel
      · exact ih hnodup (fun k hk => hfresh k (List.mem_cons_of_mem j hk)) hret hi

theorem fgdsCtrlInit_filled {n : Nat} (hret : (fgdsCtrlInit env ctrlZero n).ret = 0) {i : Nat}
    (hi : i < n) (huse : fgdsUseDevice env i = true) :
    ∃ d, slotDevice env i = some d ∧
      FilledFrom env i d ((fgdsCtrlInit env ctrlZero n).ctrl.gpuDev i) := by
  unfold fgdsCtrlInit at *
  split at hret
  · cases hret
  · rename_i hsel
    rw [if_neg hsel]
    exact ctrlLoop_filled List.nodup_range (fun _ _ => rfl) hret (List.mem_range.mpr hi) huse

end Filled

/-! ## The device of a slot -/

section Slots

variable {m : Machine} {env : LoadEnv}

/-- An entry of the table belongs to a GPU. -/
theorem table_gpu (m : Machine) (env : LoadEnv) {i : Nat} (hi : i < m.gpus.devs.length) :
    ∃ d ∈ m.devs, (m.load env).gpuInfoTable i = nvfsPdevinfo d := by
  have hlength : i < m.gpus.sorted.length := by rwa [m.gpus.sorted_perm.length_eq]
  have hmem := m.gpus.sorted_perm.mem_iff.mp (List.getElem_mem hlength)
  refine ⟨m.gpus.sorted[i], List.mem_append_left _ hmem, ?_⟩
  have htable : (m.load env).gpuInfoTable i = m.gpus.table.getD i 0 := rfl
  rw [htable, m.gpus.table_eq, List.getD_eq_getElem?_getD, List.getElem?_map,
    List.getElem?_eq_getElem hlength]
  rfl

/-- The lookup for a GPU: its bus and `devfn`, in domain 0. -/
theorem slotDevice_pdevinfo {d : PciDev} {i : Nat} (hd : Address d)
    (htable : (m.load env).gpuInfoTable i = nvfsPdevinfo d) :
    slotDevice (m.load env) i = m.pciGetDomainBusAndSlot 0 d.bus d.devfn := by
  have hbus := hd.bus
  have hdevfn := hd.devfn
  have hlookup : slotDevice (m.load env) i =
      m.pciGetDomainBusAndSlot (s32 (0 : Nat)) ((m.load env).gpuInfoTable i / 256 % 256 : Nat)
        ((m.load env).gpuInfoTable i % 256 : Nat) := rfl
  have hb : nvfsPdevinfo d / 256 % 256 = d.bus := by
    rw [nvfsPdevinfo_eq hd]
    omega
  have hf : nvfsPdevinfo d % 256 = d.devfn := by
    rw [nvfsPdevinfo_eq hd]
    omega
  rw [hlookup, htable, hb, hf]
  rfl

/-- A load that succeeds fills every selected slot from the device that is looked up for it. That
device is the GPU of the table, with its largest BAR, if and only if the domain of the GPU is 0;
the other two places take every packed address apart as it was packed. -/
theorem slot_bound_iff (m : Machine) (env : LoadEnv) :
    (∀ n, (fgdsCtrlInit (m.load env) ctrlZero n).ret = 0 →
      ∀ i < n, fgdsUseDevice env i = true → ∃ d, slotDevice (m.load env) i = some d ∧
        FilledFrom env i d ((fgdsCtrlInit (m.load env) ctrlZero n).ctrl.gpuDev i)) ∧
    (∀ i < m.gpus.devs.length,
      Bound (m.load env) i ↔ (m.load env).gpuInfoTable i / 2 ^ 32 = 0) ∧
    DecodersAgree m := by
  refine ⟨fun n hret i hi huse => fgdsCtrlInit_filled hret hi huse, fun i hi => ?_,
    decodersAgree m⟩
  obtain ⟨d, hd, htable⟩ := table_gpu m env hi
  have haddress := Machine.devs_address hd
  have hbus := haddress.bus
  have hdevfn := haddress.devfn
  have hdomain : nvfsPdevinfo d / 2 ^ 32 = d.domain := by
    rw [nvfsPdevinfo_eq haddress]
    omega
  unfold Bound
  rw [slotDevice_pdevinfo haddress htable, htable, hdomain]
  constructor
  · rintro ⟨d', hlookup, hinfo, _⟩
    obtain ⟨hd', hzero, _, _⟩ := Machine.lookup_some hlookup
    have haddress' := Machine.devs_address hd'
    have hd'zero : d'.domain = 0 := s32_inj haddress'.domain (by decide) hzero
    rw [nvfsPdevinfo_eq haddress, nvfsPdevinfo_eq haddress', hd'zero] at hinfo
    have hbus' := haddress'.bus
    have hdevfn' := haddress'.devfn
    omega
  · intro hzero
    have hself := Machine.lookup_self hd
    rw [hzero] at hself
    exact ⟨d, hself, rfl, largestBar_largest hd⟩

end Slots

/-- A GPU in domain 1 with a BAR of 16MB, and the host bridge of domain 0. -/
def twoDomains : Machine where
  gpus :=
    { devs := [⟨1, 0, 0, [(2 ^ 40, 2 ^ 24), (0, 0), (0, 0), (0, 0), (0, 0), (0, 0)]⟩]
      address := fun d hd => by
        rw [List.mem_singleton.mp hd]
        exact ⟨by decide, by decide, by decide⟩
      distinct := by decide
      count := by decide }
  others := [⟨0, 0, 0, [(2 ^ 30, 4096), (0, 0), (0, 0), (0, 0), (0, 0), (0, 0)]⟩]
  address d hd := by
    rw [List.mem_singleton.mp hd]
    exact ⟨by decide, by decide, by decide⟩
  distinct := by decide
  bars := by decide

/-- A kernel in which every call succeeds; bus addresses are mapped at a fixed distance. -/
def willingEnv : LoadEnv where
  symbolGet _ := true
  gpuInfoTable _ := 0
  useAllGpus := true
  gpuids := []
  pciGet _ _ _ := none
  platform _ := ⟨true, true, fun _ start _ => some (start + 2 ^ 47), fun _ _ => true,
    fun x => (x - 2 ^ 47) / 4096⟩
  allocChrdevRegion := 0
  classCreate := 0
  devSetName _ := 0
  cdevDeviceAdd _ := 0

/-- The load succeeds with slot 0 bound to the host bridge. -/
theorem slot_bound_other :
    (fgdsInit (twoDomains.load willingEnv)).ret = 0 ∧
      (fgdsInit (twoDomains.load willingEnv)).ctrl.gpuDev 0 =
        ⟨twoDomains.others[0]?, 0, true, ⟨2 ^ 30, 4096, some (2 ^ 30 + 2 ^ 47), true⟩⟩ ∧
      (twoDomains.load willingEnv).gpuInfoTable 0 = 2 ^ 32 ∧
      ¬ Bound (twoDomains.load willingEnv) 0 := by
  refine ⟨by decide, by decide, by decide, ?_⟩
  rintro ⟨d, hdev, hinfo, _⟩
  have hbridge : slotDevice (twoDomains.load willingEnv) 0 = twoDomains.others[0]? := by decide
  rw [hbridge] at hdev
  cases hdev
  exact absurd hinfo (by decide)

end Fgds.GpuSlots
