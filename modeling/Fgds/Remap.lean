import Fgds.Lib.CInt

/-!
# Remapping the BAR

When the kernel module is loaded, `fgds_devm_memremap` maps the BAR of a GPU into the
kernel and gets a page for each 4KB of it. On x86 this can fail at the head of the BAR;
the code then tries again without the first 2, 4 or 6MB.

* `fgdsDevmMemremap_mapped`: whichever attempt succeeds, the start, the size and the
  kernel address that are recorded belong together (`Mapped`).
-/

namespace Fgds.Remap

open Fgds.Lib.CInt

/-- `PAGE_SIZE`. -/
def pageSize : Nat := 4096

def eNoMem : Int := 12

/-- The fields of `struct fgds_dev` that the mapping code uses. `none` is a
`pci_mem_va` that is NULL or an error pointer. -/
structure FgdsDev where
  paddr : Nat
  size : Nat
  pciMemVa : Option Nat
  remap : Bool
  deriving DecidableEq, Repr

/-- The platform: what the n-th call of `devm_memremap_pages` answers for a range,
whether `ioremap` accepts a start and a size, and the page frame of a kernel address. -/
structure Platform where
  x86 : Bool
  kzalloc : Bool
  memremapPages : Nat → Nat → Nat → Option Nat
  ioremap : Nat → Nat → Bool
  virtToPage : Nat → Nat

/-! ## `fgds_devm_memremap` -/

def skipSizesMb : List Nat := [2, 4, 6]

section Memremap

variable (p : Platform) (dev : FgdsDev)

/-- The loop over the skip sizes; `call` counts the calls of `devm_memremap_pages`. The
new size is unsigned, so the test for a negative one finds only zero. -/
def probeLoop : List Nat → Nat → Option FgdsDev
  | [], _ => none
  | mb :: rest, call =>
    let skip := mb * 1024 * 1024
    let newStart := u64 (dev.paddr + skip)
    let newSize := u64 (dev.size - skip)
    if newSize ≤ 0 then none
    else if ¬ p.ioremap newStart newSize then probeLoop rest call
    else
      match p.memremapPages call newStart (u64 (newStart + newSize - 1)) with
      | none => probeLoop rest (call + 1)
      | some va => some { paddr := newStart, size := newSize, pciMemVa := some va, remap := true }

/-- `fgds_devm_memremap`: the return value, and the device afterwards. -/
def fgdsDevmMemremap : Int × FgdsDev :=
  if ¬ p.kzalloc then (-eNoMem, dev)
  else
    match p.memremapPages 0 dev.paddr (u64 (dev.paddr + dev.size - 1)) with
    | some va => (0, { dev with pciMemVa := some va, remap := true })
    | none =>
      if ¬ p.x86 then (-eNoMem, { dev with pciMemVa := none })
      else
        match probeLoop p dev skipSizesMb 1 with
        | none => (-eNoMem, { dev with pciMemVa := none })
        | some dev' => (0, dev')

end Memremap

/-! ## What is recorded -/

/-- `devm_memremap_pages` accepts proper ranges only, and maps them: the page of the
kernel address `va + x` is the one that holds the bus address `start + x`. -/
structure Platform.Linear (p : Platform) : Prop where
  range : ∀ i start stop va, p.memremapPages i start stop = some va →
    start ≤ stop ∧ va + (stop - start) < 2 ^ 64
  page : ∀ i start stop va, p.memremapPages i start stop = some va →
    ∀ x, start + x ≤ stop → p.virtToPage (va + x) = (start + x) / pageSize

/-- The BAR of `dev`, as recorded, is mapped at `va`. -/
structure Mapped (p : Platform) (dev : FgdsDev) (va : Nat) : Prop where
  mem : dev.pciMemVa = some va
  pos : 0 < dev.size
  bus : dev.paddr + dev.size ≤ 2 ^ 64
  kernel : va + dev.size ≤ 2 ^ 64
  page : ∀ x < dev.size, p.virtToPage (va + x) = (dev.paddr + x) / pageSize

variable {p : Platform} {dev dev' : FgdsDev}

/-- A range that was accepted, and what is recorded for it. -/
theorem mapped_of_range (hlin : p.Linear) {i start size va : Nat} (hpos : 0 < size)
    (hend : start + size ≤ 2 ^ 64)
    (h : p.memremapPages i start (u64 (start + size - 1)) = some va) (remap : Bool) :
    Mapped p ⟨start, size, some va, remap⟩ va := by
  have hstop : u64 ((start : Int) + size - 1) = start + size - 1 := u64_eq (by omega) (by omega)
  rw [hstop] at h
  have hrange := hlin.range i _ _ va h
  exact ⟨rfl, hpos, hend, by simp only; omega, fun x hx => hlin.page i _ _ va h x (by
    simp only at hx
    omega)⟩

/-- A skip larger than the BAR makes the new size wrap around. Then the range is not a
proper one. -/
theorem probeLoop_mapped (hlin : p.Linear) (hsize : 0 < dev.size)
    (hbus : dev.paddr + dev.size ≤ 2 ^ 63) {skips : List Nat}
    (hskip : ∀ mb ∈ skips, mb ≤ 6) {call : Nat}
    (h : probeLoop p dev skips call = some dev') :
    ∃ va, Mapped p dev' va ∧ ∃ mb ∈ skips, dev'.paddr = dev.paddr + mb * 1024 * 1024 ∧
      dev'.size + mb * 1024 * 1024 = dev.size := by
  induction skips generalizing call with
  | nil => cases h
  | cons mb rest ih =>
    have hmb := hskip mb List.mem_cons_self
    have hrest : ∀ {call : Nat}, probeLoop p dev rest call = some dev' →
        ∃ va, Mapped p dev' va ∧ ∃ mb' ∈ mb :: rest,
          dev'.paddr = dev.paddr + mb' * 1024 * 1024 ∧
          dev'.size + mb' * 1024 * 1024 = dev.size := by
      intro call hrun
      obtain ⟨va, hm, mb', hmem, hmoved⟩ :=
        ih (fun mb' hm' => hskip mb' (List.mem_cons_of_mem mb hm')) hrun
      exact ⟨va, hm, mb', List.mem_cons_of_mem mb hmem, hmoved⟩
    simp only [probeLoop] at h
    split at h
    · cases h
    · split at h
      · exact hrest h
      · split at h
        · exact hrest h
        · rename_i hnz _ va hva
          obtain rfl := Option.some.inj h
          have hs : u64 ((dev.paddr : Int) + (mb * 1024 * 1024 : Nat)) =
              dev.paddr + mb * 1024 * 1024 := u64_eq (by omega) (by omega)
          rw [hs] at hva ⊢
          by_cases hlt : mb * 1024 * 1024 < dev.size
          · have hz : u64 ((dev.size : Int) - (mb * 1024 * 1024 : Nat)) =
                dev.size - mb * 1024 * 1024 := u64_eq (by omega) (by omega)
            rw [hz] at hva ⊢
            exact ⟨va, mapped_of_range hlin (by omega) (by omega) hva true, mb,
              List.mem_cons_self, rfl, by simp only; omega⟩
          · have hrange := (hlin.range _ _ _ va hva).1
            simp only [u64] at hrange hnz
            omega

theorem fgdsDevmMemremap_mapped (hlin : p.Linear) (hsize : 0 < dev.size)
    (hbus : dev.paddr + dev.size ≤ 2 ^ 63) (h : fgdsDevmMemremap p dev = (0, dev')) :
    ∃ va, Mapped p dev' va ∧ ∃ mb ∈ 0 :: skipSizesMb,
      dev'.paddr = dev.paddr + mb * 1024 * 1024 ∧ dev'.size + mb * 1024 * 1024 = dev.size := by
  unfold fgdsDevmMemremap at h
  split at h
  · simp [eNoMem] at h
  · split at h
    · rename_i va hva
      simp only [Prod.mk.injEq, true_and] at h
      subst h
      exact ⟨va, mapped_of_range hlin hsize (by omega) hva true, 0, List.mem_cons_self, rfl, rfl⟩
    · split at h
      · simp [eNoMem] at h
      · split at h
        · simp [eNoMem] at h
        · rename_i dev'' hprobe
          simp only [Prod.mk.injEq, true_and] at h
          subst h
          obtain ⟨va, hm, mb, hmem, hmoved⟩ :=
            probeLoop_mapped hlin hsize hbus (by decide) hprobe
          exact ⟨va, hm, mb, List.mem_cons_of_mem 0 hmem, hmoved⟩

end Fgds.Remap
