import Fgds.Backend.Mounts
import Fgds.Lifecycle
import Fgds.Xfer

/-!
# The device numbers of the backend

`FgdsBackend.__init__` takes its device number from `dst_device`, and opens that device with
`FgdsDriver`; the file ids of its reads and writes have the same number. Before that,
`FgdsMemoryAllocator.__init__` translates the number with `CUDA_VISIBLE_DEVICES` and registers
the buffer on the device that it finds there.

* `getDeviceId_of_names`, `allocatorDevice_of_lists`: the two numbers;
* `allocatorInit_ready`: registering on an open device;
* `one_device_iff`: there is one device, open when memory is registered on it, if and only if the
  translation does not change the number, the device has been opened before (and the driver was
  not made for another one), and the package exports what the allocator imports from it;
* `one_device_fails`: the package as it is, a new process, and a translated number.
-/

namespace Fgds.Backend.Devices

open Fgds.Lib.CInt Fgds.Lib.Runs Fgds.Device Fgds.Regmem Fgds.OpenClose Fgds.Lifecycle Fgds.Xfer

/-! ## Texts -/

/-- Decimal digits. -/
def pyDigits (digits : Str) : Option Nat :=
  if digits ≠ [] ∧ digits.all Char.isDigit then
    some (digits.foldl (fun n c => 10 * n + (c.toNat - '0'.toNat)) 0)
  else none

/-- `text.strip()` -/
def pyStrip (text : Str) : Str :=
  ((text.dropWhile isPySpace).reverse.dropWhile isPySpace).reverse

/-- `int(text)`, for a text without underscores; `none` is the `ValueError`. -/
def pyInt (text : Str) : Option Int :=
  match pyStrip text with
  | '-' :: digits => (pyDigits digits).map fun n : Nat => -(n : Int)
  | '+' :: digits => (pyDigits digits).map fun n : Nat => (n : Int)
  | digits => (pyDigits digits).map fun n : Nat => (n : Int)

/-- `l[i]`, from the end if the index is negative; `none` is the `IndexError`. -/
def pyIndex {α : Type} (l : List α) (i : Int) : Option α :=
  if 0 ≤ i then l[i.toNat]? else if -i ≤ l.length then l[(l.length + i).toNat]? else none

/-- `get_device_id`; `none` is the `ValueError`. -/
def getDeviceId (destDevice : Str) : Option Int :=
  match destDevice.splitOn ':' with
  | [_, number] => pyInt number
  | _ => some 0

/-- `CUDA_VISIBLE_DEVICES`, if it is set. -/
def deviceList (cudaVisibleDevices : Option Str) : Str := cudaVisibleDevices.getD ['0']

/-! ## The constructors -/

inductive Raised where
  | assertionError
  | importError
  | indexError
  | valueError
  | runtimeError
  deriving DecidableEq, Repr

/-- A call of the library, in the order in which they are made; for `fgds_regmem`, whether the
device was open. -/
inductive LibCall where
  | regmem (device : Int) (ready : Bool)
  | opens (device : Int)
  deriving DecidableEq, Repr

/-- The library, the device of the one `FgdsDriver`, if there is one, and the calls made. -/
structure Process where
  lib : Lib
  driver : Option Int
  calls : List LibCall

/-- The surroundings of a backend: what the package `fgds` has, the variable, the arguments and
configuration, the buffer on the GPU, and the answers of the operating system. -/
structure Config where
  names : List String
  cudaVisibleDevices : Option Str
  dstDevice : Str
  useFgds : Bool
  fgdsBufferSize : Nat
  basePointer : Nat
  os : Os
  osOpen : Nat → Option Nat

/-- The size of the buffer in bytes. -/
def Config.size (c : Config) : Nat := c.fgdsBufferSize * 1024 ^ 2

/-- The names that `from fgds import ...` looks for. -/
def imported : List String := ["fgds_deregmem", "fgds_regmem"]

/-- The number is one of a device, and that device is open. -/
def Ready (lib : Lib) (device : Int) : Prop :=
  0 ≤ device ∧ device < fgdsMaxDevices ∧ Opened lib device.toNat

instance (lib : Lib) (device : Int) : Decidable (Ready lib device) :=
  inferInstanceAs (Decidable (_ ∧ _ ∧ _))

/-- The device number that `FgdsMemoryAllocator.__init__` computes. -/
def allocatorDevice (c : Config) : Except Raised Int :=
  match getDeviceId c.dstDevice with
  | none => .error .valueError
  | some i =>
    match pyIndex ((deviceList c.cudaVisibleDevices).splitOn ',') i with
    | none => .error .indexError
    | some number =>
      match pyInt number with
      | none => .error .valueError
      | some device => .ok device

/-- `FgdsMemoryAllocator.__init__`: the device, and the process. `fgds_regmem` of the bindings
raises an exception if the library returns a negative number. -/
def allocatorInit (c : Config) (p : Process) : Except Raised (Int × Process) :=
  if imported.all (· ∈ c.names) = false then .error .importError
  else
    match allocatorDevice c with
    | .error raised => .error raised
    | .ok device =>
      let ctx := p.lib.dev device.toNat
      let r := fgdsRegmem c.os ctx.buffer device c.basePointer c.size
      if r.ret < 0 then .error .runtimeError
      else
        .ok (device,
          { p with
            lib := p.lib.set device.toNat { ctx with buffer := r.buffer }
            calls := p.calls ++ [.regmem device (Ready p.lib device)] })

/-- `FgdsDriver(device_id)`, of which there is one; the device that it was made for. -/
def fgdsDriver (c : Config) (p : Process) (deviceId : Int) : Except Raised (Int × Process) :=
  match p.driver with
  | some device => .ok (device, p)
  | none =>
    let (ret, lib) := fgdsOpen c.osOpen p.lib deviceId
    if ret ≠ 0 then .error .runtimeError
    else .ok (deviceId, ⟨lib, some deviceId, p.calls ++ [.opens deviceId]⟩)

/-- A backend: `device_id`, which is in the file ids, `memory_allocator.device` and
`_fgds_driver.device_id`, with the process. -/
structure Built where
  deviceId : Int
  allocatorDevice : Int
  driverDevice : Option Int
  process : Process

/-- `FgdsBackend.__init__`, as far as it has to do with devices. -/
def backendInit (c : Config) (p : Process) : Except Raised Built :=
  if ¬ "cuda".toList <+: c.dstDevice then .error .assertionError
  else
    match getDeviceId c.dstDevice with
    | none => .error .valueError
    | some deviceId =>
      match allocatorInit c p with
      | .error raised => .error raised
      | .ok (device, p) =>
        if c.useFgds then
          match fgdsDriver c p deviceId with
          | .error raised => .error raised
          | .ok (driver, p) => .ok ⟨deviceId, device, some driver, p⟩
        else .ok ⟨deviceId, device, none, p⟩

/-! ## One device -/

/-- What a backend should be. -/
structure OneDevice (c : Config) (b : Built) : Prop where
  registered : b.allocatorDevice = b.deviceId
  driver : ∀ device, b.driverDevice = some device → device = b.deviceId
  /-- The device is open when memory is registered on it. -/
  opened : ∀ device ready, .regmem device ready ∈ b.process.calls → ready = true
  /-- Every transfer inside the buffer finds the registration. -/
  finds : ∀ offset n : Nat, 0 < n → offset + n ≤ c.size →
    (fgdsDoXferAddr (b.process.lib.dev b.deviceId.toNat).buffer.head c.basePointer offset
      n).isSome = true

/-- The variable is unset, or a list of numbers separated by commas. -/
def Lists (cudaVisibleDevices : Option Str) (devices : List Nat) : Prop :=
  ((deviceList cudaVisibleDevices).splitOn ',').map pyInt =
    devices.map fun device : Nat => some (device : Int)

instance (cudaVisibleDevices : Option Str) (devices : List Nat) :
    Decidable (Lists cudaVisibleDevices devices) := inferInstanceAs (Decidable (_ = _))

/-- `cuda`, or `cuda:k`. -/
def Names (dstDevice : Str) (k : Nat) : Prop :=
  dstDevice = "cuda".toList ∧ k = 0 ∨
    ∃ number, dstDevice = "cuda".toList ++ ':' :: number ∧ pyInt number = some (k : Int)

/-- There is a buffer, and an operating system that serves the device if it is open. -/
structure Works (c : Config) (lib : Lib) (device : Nat) : Prop where
  nonempty : 0 < c.fgdsBufferSize
  small : c.size < 2 ^ 60
  inside : c.basePointer + c.size < 2 ^ 64
  grants : Ready lib device → c.os.Grants
  apart : Ready lib device → MapsApart c.os c.size

/-! ## The two numbers -/

theorem mem_dropWhile_or {α : Type} (p : α → Bool) {l : List α} {a : α} (h : a ∈ l) :
    p a = true ∨ a ∈ l.dropWhile p := by
  induction l with
  | nil => cases h
  | cons b l ih =>
    cases hb : p b with
    | false => exact .inr (by rwa [List.dropWhile_cons_of_neg (by simp [hb])])
    | true =>
      rw [List.dropWhile_cons_of_pos hb]
      rcases List.mem_cons.mp h with rfl | hrest
      · exact .inl hb
      · exact ih hrest

theorem mem_pyStrip {text : Str} {a : Char} (h : a ∈ text) :
    isPySpace a = true ∨ a ∈ pyStrip text := by
  rcases mem_dropWhile_or isPySpace h with hspace | hleft
  · exact .inl hspace
  · have hright := mem_dropWhile_or isPySpace (List.mem_reverse.mpr hleft)
    exact hright.imp_right List.mem_reverse.mpr

theorem digits_of_pyDigits {digits : Str} {n : Nat} (h : pyDigits digits = some n) :
    ∀ a ∈ digits, a.isDigit = true := by
  obtain ⟨⟨-, hall⟩, -⟩ := Option.ite_none_right_eq_some.mp h
  exact List.all_eq_true.mp hall

/-- Numbers are written without colons. -/
theorem colon_notMem {number : Str} {n : Int} (h : pyInt number = some n) : ':' ∉ number := by
  intro hmem
  have hstrip := (mem_pyStrip hmem).resolve_left (by decide)
  have hdigit : ∀ {digits : Str} {m : Nat}, pyDigits digits = some m → ':' ∉ digits :=
    fun hm hcolon => absurd (digits_of_pyDigits hm _ hcolon) (by decide)
  unfold pyInt at h
  split at h
  · next digits heq =>
    obtain ⟨m, hm, -⟩ := Option.map_eq_some_iff.mp h
    rw [heq] at hstrip
    exact hdigit hm ((List.mem_cons.mp hstrip).resolve_left (by decide))
  · next digits heq =>
    obtain ⟨m, hm, -⟩ := Option.map_eq_some_iff.mp h
    rw [heq] at hstrip
    exact hdigit hm ((List.mem_cons.mp hstrip).resolve_left (by decide))
  · obtain ⟨m, hm, -⟩ := Option.map_eq_some_iff.mp h
    exact hdigit hm hstrip

theorem getDeviceId_of_names {dstDevice : Str} {k : Nat} (h : Names dstDevice k) :
    "cuda".toList <+: dstDevice ∧ getDeviceId dstDevice = some (k : Int) := by
  rcases h with ⟨rfl, rfl⟩ | ⟨number, rfl, hnumber⟩
  · exact ⟨List.prefix_refl _, rfl⟩
  · refine ⟨List.prefix_append _ _, ?_⟩
    have hsplit : ("cuda".toList ++ ':' :: number).splitOn ':' = ["cuda".toList, number] := by
      rw [List.splitOn_append_cons_self_of_not_mem (by decide),
        List.splitOn_eq_singleton (colon_notMem hnumber)]
    rw [getDeviceId, hsplit]
    exact hnumber

section Init

variable {c : Config} {devices : List Nat} {k d : Nat}

/-- The allocator takes the number in the list. -/
theorem allocatorDevice_of_lists (hlists : Lists c.cudaVisibleDevices devices)
    (hnames : Names c.dstDevice k) (hk : devices[k]? = some d) :
    allocatorDevice c = .ok (d : Int) := by
  have hget := congrArg (·[k]?) hlists
  simp only [List.getElem?_map, hk, Option.map_some] at hget
  obtain ⟨number, hnumber, hint⟩ := Option.map_eq_some_iff.mp hget
  have hindex : pyIndex ((deviceList c.cudaVisibleDevices).splitOn ',') (k : Int) =
      some number := by
    rw [pyIndex, if_pos (Int.natCast_nonneg k), Int.toNat_natCast, hnumber]
  simp only [allocatorDevice, (getDeviceId_of_names hnames).2, hindex, hint]

/-! ## What the constructors do -/

/-- The allocator that was made: the names were there, and the call is on record. -/
theorem allocatorInit_ok {p p₁ : Process} {device : Int}
    (h : allocatorInit c p = .ok (device, p₁)) :
    (∀ name ∈ imported, name ∈ c.names) ∧ allocatorDevice c = .ok device ∧
      p₁.driver = p.driver ∧ p₁.calls = p.calls ++ [.regmem device (Ready p.lib device)] := by
  unfold allocatorInit at h
  split at h
  · cases h
  · next hnames =>
    split at h
    · cases h
    · next device' hdevice =>
      dsimp only at h
      split at h
      · cases h
      · cases h
        exact ⟨by simpa using hnames, hdevice, rfl, rfl⟩

/-- The driver is the one there is, or a new one. -/
theorem fgdsDriver_ok {p p₁ : Process} {deviceId device : Int}
    (h : fgdsDriver c p deviceId = .ok (device, p₁)) :
    (p.driver = some device ∨ p.driver = none ∧ device = deviceId) ∧
      ∀ call ∈ p.calls, call ∈ p₁.calls := by
  unfold fgdsDriver at h
  cases hdriver : p.driver with
  | some other =>
    simp only [hdriver, Except.ok.injEq, Prod.mk.injEq] at h
    obtain ⟨rfl, rfl⟩ := h
    exact ⟨.inl rfl, fun call hcall => hcall⟩
  | none =>
    simp only [hdriver] at h
    split at h
    · cases h
    · cases h
      exact ⟨.inr ⟨rfl, rfl⟩, fun call hcall => List.mem_append_left _ hcall⟩

/-- Registering on an open device. -/
theorem allocatorInit_ready {p : Process} (himport : ∀ name ∈ imported, name ∈ c.names)
    (hdevice : allocatorDevice c = .ok (d : Int)) (hworks : Works c p.lib d)
    (hready : Ready p.lib d) (hini : (p.lib.dev d).buffer.initialized = true) :
    ∃ p₁ nd, allocatorInit c p = .ok ((d : Int), p₁) ∧ p₁.driver = p.driver ∧
      (p₁.lib.dev d).flag = (p.lib.dev d).flag ∧
      (p₁.lib.dev d).buffer.head = nd :: (p.lib.dev d).buffer.head ∧
      nd.Registered ∧ nd.gpuAddr = c.basePointer ∧ nd.length = c.size := by
  have hsize : c.size % fgdsGpuPageSize = 0 := by
    simp only [Config.size, fgdsGpuPageSize]
    omega
  have hret := fgdsRegmem_granted (d := (d : Int)) (a := c.basePointer) (hworks.grants hready) hini
    hsize
  obtain ⟨nd, hlinked⟩ := fgdsRegmem_linked hret
  have hcount : nd.mmapCount < 2 ^ 31 := by
    have hsmall := hworks.small
    rw [hlinked.count, mmapCountOf_eq]
    omega
  have hpos : 0 < c.size := Nat.mul_pos hworks.nonempty (by decide)
  have hnames : ¬ imported.all (· ∈ c.names) = false := by simpa using himport
  obtain ⟨p₁, hp₁⟩ : ∃ p₁ : Process, p₁ =
      ⟨p.lib.set d { p.lib.dev d with
          buffer := (fgdsRegmem c.os (p.lib.dev d).buffer d c.basePointer c.size).buffer },
        p.driver, p.calls ++ [.regmem d (Ready p.lib d)]⟩ := ⟨_, rfl⟩
  refine ⟨p₁, nd, ?_, by rw [hp₁], ?_, ?_,
    hlinked.registered hpos hcount (hworks.apart hready), hlinked.gpuAddr, hlinked.length⟩
  · rw [allocatorInit, if_neg hnames, hdevice]
    simp only [Int.toNat_natCast, hret, lt_self_iff_false, if_false, hp₁]
  · simp [hp₁]
  · simp [hp₁, hlinked.buffer]

/-- The backend that was made: its parts. -/
theorem backendInit_ok {p : Process} {b : Built} (hnames : Names c.dstDevice k)
    (h : backendInit c p = .ok b) :
    ∃ device p₁, allocatorInit c p = .ok (device, p₁) ∧ b.deviceId = k ∧
      b.allocatorDevice = device ∧ (∀ call ∈ p₁.calls, call ∈ b.process.calls) ∧
      (c.useFgds = true → ∃ driver, b.driverDevice = some driver ∧
        (p.driver = some driver ∨ p.driver = none ∧ driver = k)) := by
  obtain ⟨hcuda, hid⟩ := getDeviceId_of_names hnames
  rw [backendInit, if_neg (not_not.mpr hcuda), hid] at h
  dsimp only at h
  split at h
  · cases h
  · next device p₁ halloc =>
    refine ⟨device, p₁, halloc, ?_⟩
    obtain ⟨-, -, hdriver, -⟩ := allocatorInit_ok halloc
    split at h
    · split at h
      · cases h
      · next driver p₂ hmade =>
        cases h
        obtain ⟨hwhich, hcalls⟩ := fgdsDriver_ok hmade
        rw [hdriver] at hwhich
        exact ⟨rfl, rfl, hcalls, fun _ => ⟨driver, rfl, hwhich⟩⟩
    · next hoff =>
      cases h
      exact ⟨rfl, rfl, fun call hcall => hcall, fun hon => absurd hon hoff⟩

/-- A device that is open: the driver opens nothing. -/
theorem fgdsDriver_ready {p : Process} (hk : k < fgdsMaxDevices)
    (hflag : (p.lib.dev k).flag = true) (hdriver : p.driver = none ∨ p.driver = some (k : Int)) :
    ∃ p₁, fgdsDriver c p k = .ok ((k : Int), p₁) ∧ p₁.lib = p.lib ∧
      ∀ device ready, .regmem device ready ∈ p₁.calls → .regmem device ready ∈ p.calls := by
  rcases hdriver with hnone | hsome
  · have hany : isFgdsInitialized p.lib = true := (isFgdsInitialized_iff _).mpr ⟨k, hk, hflag⟩
    refine ⟨⟨p.lib, some k, p.calls ++ [.opens k]⟩, ?_, rfl, fun device ready hmem => ?_⟩
    · simp [fgdsDriver, hnone, fgdsOpen, hany]
    · simpa using hmem
  · exact ⟨p, by simp [fgdsDriver, hsome], rfl, fun _ _ hmem => hmem⟩

/-- A transfer inside the newest registration. -/
theorem finds_newest {nd : MmapNode} (hreg : nd.Registered) (hgpu : nd.gpuAddr = c.basePointer)
    (hlen : nd.length = c.size) (hend : c.basePointer + c.size < 2 ^ 64) (rest : List MmapNode)
    {offset n : Nat} (hn : 0 < n) (hin : offset + n ≤ c.size) :
    (fgdsDoXferAddr (nd :: rest) c.basePointer offset n).isSome = true := by
  have hselect : Selects (nd :: rest) c.basePointer n nd :=
    selects_newest (by omega) (by omega) (by omega) rest
  obtain ⟨entries, hentries, -⟩ := xferWindow_inside hreg hn (by omega : offset + n ≤ nd.length)
  rw [fgdsDoXferAddr_some (hselect n hn le_rfl), hentries]
  rfl

/-- For every earlier use of the library, every value of the variable and every `dst_device`. -/
theorem one_device_iff {st : Lifecycle.State} (hrun : Run calls Orderly st) (driver : Option Int)
    (hlists : Lists c.cudaVisibleDevices devices) (hnames : Names c.dstDevice k)
    (hk : devices[k]? = some d) (hworks : Works c st.lib d) :
    (∃ b, backendInit c ⟨st.lib, driver, []⟩ = .ok b ∧ OneDevice c b) ↔
      d = k ∧ Ready st.lib k ∧
        (c.useFgds = true → driver = none ∨ driver = some (k : Int)) ∧
        ∀ name ∈ imported, name ∈ c.names := by
  have hdevice := allocatorDevice_of_lists hlists hnames hk
  constructor
  · rintro ⟨b, hb, hone⟩
    obtain ⟨device, p₁, halloc, hid, hreg, hcalls, hdriver⟩ := backendInit_ok hnames hb
    obtain ⟨himport, hdevice', -, hlog⟩ := allocatorInit_ok halloc
    obtain rfl : device = d := Except.ok.inj (hdevice'.symm.trans hdevice)
    have hsame : (d : Int) = k := hreg.symm.trans (hone.registered.trans hid)
    have hlogged : .regmem (d : Int) (Ready st.lib d) ∈ p₁.calls :=
      hlog ▸ List.mem_append_right _ List.mem_cons_self
    have hready := hone.opened _ _ (hcalls _ hlogged)
    refine ⟨Int.ofNat_inj.mp hsame, hsame ▸ of_decide_eq_true hready, fun hon => ?_, himport⟩
    obtain ⟨device, hdev, hwhich⟩ := hdriver hon
    obtain rfl : device = k := (hone.driver device hdev).trans hid
    exact hwhich.symm.imp_left And.left
  · rintro ⟨rfl, hready, hdriver, himport⟩
    obtain ⟨hcuda, hid⟩ := getDeviceId_of_names hnames
    have hopened : Opened st.lib d := hready.2.2
    have hini := (inv_of_run hrun).tidy.ready d hopened
    obtain ⟨p₁, nd, halloc, hdriver₁, hflag, hhead, hreg, hgpu, hlen⟩ :=
      allocatorInit_ready (p := ⟨st.lib, driver, []⟩) himport hdevice hworks hready hini
    obtain ⟨-, -, -, hlog⟩ := allocatorInit_ok halloc
    have hlogged : ∀ device ready, .regmem device ready ∈ p₁.calls → ready = true := by
      intro device ready hmem
      rw [hlog] at hmem
      simp only [List.nil_append, List.mem_singleton, LibCall.regmem.injEq] at hmem
      rw [hmem.2]
      exact decide_eq_true hready
    have hfinds : ∀ offset n : Nat, 0 < n → offset + n ≤ c.size →
        (fgdsDoXferAddr (p₁.lib.dev d).buffer.head c.basePointer offset n).isSome = true := by
      intro offset n hn hin
      rw [hhead]
      exact finds_newest hreg hgpu hlen hworks.inside _ hn hin
    cases hon : c.useFgds with
    | false =>
      refine ⟨⟨d, d, none, p₁⟩, ?_, rfl, nofun, hlogged, hfinds⟩
      simp only [backendInit, hcuda, not_true_eq_false, if_false, hid, halloc, hon,
        Bool.false_eq_true]
    | true =>
      have hlt : d < fgdsMaxDevices := by exact_mod_cast hready.2.1
      obtain ⟨p₂, hmade, hlib, hcalls⟩ := fgdsDriver_ready (c := c) hlt (hflag.trans hopened.1)
        (hdriver₁ ▸ hdriver hon)
      refine ⟨⟨d, d, some d, p₂⟩, ?_, rfl, ?_, fun device ready hmem => ?_, ?_⟩
      · simp only [backendInit, hcuda, not_true_eq_false, if_false, hid, halloc, hon, if_true,
          hmade]
      · rintro device ⟨⟩
        rfl
      · exact hlogged device ready (hcalls device ready hmem)
      · rw [show p₂.lib = p₁.lib from hlib]
        exact hfinds

end Init

/-! ## Examples -/

/-- What the package exports. -/
def fgdsPackage : List String := ["Fgds", "FgdsDriver", "fgds", "fgds_bind"]

/-- A buffer of one megabyte. -/
def oneMegabyte (names : List String) (cudaVisibleDevices dstDevice : String) : Config where
  names := names
  cudaVisibleDevices := some cudaVisibleDevices.toList
  dstDevice := dstDevice.toList
  useFgds := true
  fgdsBufferSize := 1
  basePointer := 1048576
  os := plainOs 1 4294967296
  osOpen := plainOpen

/-- The library after device 1 has been opened. -/
def secondOpened : Lifecycle.State := calls.after calls.init [.opens plainOpen 1]

theorem secondOpened_run : Run calls Orderly secondOpened := by
  refine Run.init.after ?_ ?_
  · exact ⟨plainOpen_fresh, trivial⟩
  · exact ⟨trivial, trivial⟩

theorem one_device_second :
    let c := oneMegabyte (imported ++ fgdsPackage) "0, 1" "cuda:1"
    ∃ b, backendInit c ⟨secondOpened.lib, none, []⟩ = .ok b ∧ OneDevice c b := by
  intro c
  have hworks : Works c secondOpened.lib 1 := by
    refine ⟨by decide, by decide, by decide, fun _ => plainOs_grants _ _, fun _ => ?_⟩
    exact plainOs_mapsApart _ _ _ (by decide)
  have hlists : Lists c.cudaVisibleDevices [0, 1] := by decide
  have hnames : Names c.dstDevice 1 := .inr ⟨['1'], rfl, rfl⟩
  exact (one_device_iff secondOpened_run none hlists hnames rfl hworks).mpr (by decide)

/-- With the package as it is, the allocator cannot be made. With one that has the names, it
cannot be made in a new process, where no device is open. With an open device whose number is
translated, the buffer is registered on device 1, and transfers look for it on device 0. -/
theorem one_device_fails :
    (backendInit (oneMegabyte fgdsPackage "0" "cuda:0") ⟨libZero, none, []⟩ =
        .error .importError) ∧
      (backendInit (oneMegabyte (imported ++ fgdsPackage) "0" "cuda:0") ⟨libZero, none, []⟩ =
        .error .runtimeError) ∧
      ∃ b, backendInit (oneMegabyte (imported ++ fgdsPackage) "1" "cuda:0")
          ⟨secondOpened.lib, none, []⟩ = .ok b ∧
        b.allocatorDevice = 1 ∧ b.driverDevice = some 0 ∧ b.deviceId = 0 ∧
        fgdsDoXferAddr (b.process.lib.dev 0).buffer.head 1048576 0 4096 = none := by
  refine ⟨rfl, rfl, _, rfl, rfl, rfl, rfl, rfl⟩

end Fgds.Backend.Devices
