import Fgds.Backend.Restart
import Fgds.Transfer
import Mathlib.Data.List.GetD

/-!
# Saving and loading a chunk

`_save_gds`, `_load_gds` and `_load_bytes_from_disk_with_memory`: the file is the packed metadata
followed by the bytes of the tensor, which are moved with the library, or, without it, by a GPU
copy from or into a mapping of the file.

* `acceptedBy`: the region in which the library finds a request, whichever pointer names it;
* `fgdsWrite_file`, `fgdsRead_memory`: what the library does with a window of a region is what
  the branches for it assume;
* `metadata_codec`: the metadata is read back from every buffer that starts with it, and says
  where the bytes of the tensor are.
-/

namespace Fgds.Backend

open Fgds.Lib.CInt Fgds.Device Fgds.Xfer Fgds.Uring Fgds.Pipeline Fgds.ReadWrite Fgds.Storage
open Fgds.Transfer

/-! ## Memory and files -/

/-- The `n` bytes at an address. -/
def bytesAt (mem : Nat → UInt8) (a n : Nat) : Bytes := (List.range n).map fun k => mem (a + k)

/-- The memory after `data` was copied to an address. -/
def storeAt (mem : Nat → UInt8) (a : Nat) (data : Bytes) : Nat → UInt8 := fun x =>
  if a ≤ x ∧ x < a + data.length then data.getD (x - a) 0 else mem x

/-- `os.ftruncate`. -/
def ftruncate (file : Bytes) (size : Nat) : Bytes :=
  file.take size ++ List.replicate (size - file.length) 0

@[simp]
theorem bytesAt_length (mem : Nat → UInt8) (a n : Nat) : (bytesAt mem a n).length = n := by
  simp [bytesAt]

theorem bytesAt_getD (mem : Nat → UInt8) (a : Nat) {n k : Nat} (hk : k < n) :
    (bytesAt mem a n).getD k 0 = mem (a + k) := by
  simp [bytesAt, hk]

theorem bytesAt_eq_iff {mem : Nat → UInt8} {a : Nat} {data : Bytes} :
    bytesAt mem a data.length = data ↔ ∀ k < data.length, mem (a + k) = data.getD k 0 := by
  constructor
  · intro h k hk
    rw [← bytesAt_getD mem a hk, h]
  · intro h
    refine List.ext_getElem (by simp) fun k _ hk => ?_
    have hbyte := h k hk
    rw [List.getD_eq_getElem _ _ hk] at hbyte
    simp [bytesAt, hbyte]

theorem bytesAt_storeAt (mem : Nat → UInt8) (a : Nat) (data : Bytes) :
    bytesAt (storeAt mem a data) a data.length = data := by
  refine bytesAt_eq_iff.mpr fun k hk => ?_
  rw [storeAt, if_pos (by omega), Nat.add_sub_cancel_left]

theorem writeAt_length (file data : Bytes) (offset : Nat) :
    (writeAt file offset data).length = max file.length (offset + data.length) := by
  simp only [writeAt, List.length_append, List.length_take, List.length_replicate,
    List.length_drop]
  omega

theorem writeAt_getD (file data : Bytes) (offset y : Nat) :
    (writeAt file offset data).getD y 0 =
      if offset ≤ y ∧ y < offset + data.length then data.getD (y - offset) 0
      else file.getD y 0 := by
  have hhead : (file.take offset ++ List.replicate (offset - file.length) 0).length = offset := by
    simp only [List.length_append, List.length_take, List.length_replicate]
    omega
  rw [writeAt, List.append_assoc]
  rcases Nat.lt_or_ge y offset with hy | hy
  · -- before the window: the file, or the zeros that fill the gap
    rw [if_neg (by omega), List.getD_append _ _ _ _ (by omega)]
    rcases Nat.lt_or_ge y file.length with hy' | hy'
    · rw [List.getD_append _ _ _ _ (by simp; omega)]
      simp [List.getD_eq_getElem?_getD, hy]
    · rw [List.getD_append_right _ _ _ _ (by simp; omega), List.getD_eq_default _ _ hy']
      simp only [List.getD_eq_getElem?_getD, List.getElem?_replicate]
      split
      · rfl
      · rfl
  · rw [List.getD_append_right _ _ _ _ (by omega), hhead]
    rcases Nat.lt_or_ge y (offset + data.length) with hy' | hy'
    · rw [if_pos ⟨hy, hy'⟩, List.getD_append _ _ _ _ (by omega)]
    · rw [if_neg (by omega), List.getD_append_right _ _ _ _ (by omega)]
      simp only [List.getD_eq_getElem?_getD, List.getElem?_drop]
      congr 2
      omega

/-- Extending a file and then filling in the end is appending. -/
theorem writeAt_ftruncate {file : Bytes} {offset : Nat} (h : file.length = offset) (data : Bytes) :
    writeAt (ftruncate file (data.length + offset)) offset data = file ++ data := by
  have hlen : (ftruncate file (data.length + offset)).length = data.length + offset := by
    simp only [ftruncate, List.length_append, List.length_take, List.length_replicate]
    omega
  have htake : (ftruncate file (data.length + offset)).take offset = file := by
    have hall : file.take (data.length + offset) = file := List.take_of_length_le (by omega)
    rw [ftruncate, hall, List.take_left' h]
  rw [writeAt, htake, hlen, List.drop_eq_nil_of_le (by omega),
    Nat.sub_eq_zero_of_le (Nat.le_add_left _ _)]
  simp

/-! ## The branches -/

/-- `self.fgds` or `self._gpu_memcpy`, whichever is set; `self.fgds` comes first. -/
inductive Transport where
  | fgds
  | gpuMemcpy
  deriving DecidableEq, Repr

/-- `ctypes.c_void_p`. -/
def cVoidP (value : Nat) : Nat := u64 value

/-- The `value` of a pointer: `None` for NULL. -/
def pointerValue (p : Nat) : Option Nat := if p = 0 then none else some p

/-- The length with which the library looks a region up: that of the request, or, in the pipeline,
of a sub-I/O. -/
def lookupSize (op : Opcode) (size : Nat) : Nat :=
  if size < threshold op then size else fgdsSubIoSize

/-- The region in which the library finds a request whose end does not wrap around, or none if it
refuses it. The pointer only selects the region: the offset counts from its start. -/
def acceptedBy (regs : List MmapNode) (op : Opcode) (pointer size devOffset : Nat) :
    Option MmapNode :=
  (findFgdsMmapNode regs pointer (lookupSize op size)).filter fun nd =>
    (xferWindow nd (s64 devOffset) size).isSome

/-- `Fgds.write`, when it transfers everything; none if the library refuses it, which raises an
exception. -/
def fgdsFileWrite (regs : List MmapNode) (mem : Nat → UInt8) (file : Bytes)
    (src size fileOffset devOffset : Nat) : Option Bytes :=
  (acceptedBy regs .write src size devOffset).map fun nd =>
    writeAt file fileOffset (bytesAt mem (nd.gpuAddr + devOffset) size)

/-- `Fgds.read`, when it transfers what the file has; none if the library refuses it. -/
def fgdsFileRead (regs : List MmapNode) (mem : Nat → UInt8) (file : Bytes)
    (dest size fileOffset devOffset : Nat) : Option (Int × (Nat → UInt8)) :=
  (acceptedBy regs .read dest size devOffset).map fun nd =>
    let data := (file.drop fileOffset).take size
    (data.length, storeAt mem (nd.gpuAddr + devOffset) data)

/-- `addr`: the registered base, or the tensor's own pointer. -/
def transferAddr (basePointer : Option Nat) (dataPtr : Nat) : Nat :=
  match basePointer with
  | none => cVoidP dataPtr
  | some p => cVoidP p

/-- `dev_offset`. -/
def transferOffset (basePointer : Option Nat) (deviceOffset : Nat) : Nat :=
  match basePointer with
  | none => 0
  | some _ => deviceOffset

/-- `_save_gds`: the file that it leaves, or none if it raises an exception. The regions are those
registered with the library. -/
def saveGds (regs : List MmapNode) (transport : Option Transport) (json : Json)
    (mem : Nat → UInt8) (kvChunk : Tensor) (dataPtr : Nat) (fmt : MemoryFormat)
    (basePointer : Option Nat) (deviceOffset : Nat) : Option Bytes :=
  let addr := transferAddr basePointer dataPtr
  let devOffset := transferOffset basePointer deviceOffset
  let nbytes := kvChunk.data.length
  match packMetadata json kvChunk fmt versionMetadata with
  | none => none
  | some metadata =>
    match transport with
    | some .fgds => fgdsFileWrite regs mem metadata addr nbytes metadataMaxSize devOffset
    | some .gpuMemcpy =>
      match pointerValue addr with
      | none => none
      -- the source is `addr` with `device_offset`, not with `dev_offset`
      | some value =>
        some (writeAt (ftruncate metadata (nbytes + metadataMaxSize)) metadataMaxSize
          (bytesAt mem (cVoidP (value + deviceOffset)) nbytes))
    | none => none

/-- `_load_gds`: the return value and the memory. -/
def loadGds (regs : List MmapNode) (transport : Option Transport) (mem : Nat → UInt8)
    (file : Bytes) (fileOffset gpuPointer sizeInBytes devOffset : Nat) : Int × (Nat → UInt8) :=
  match transport with
  | some .fgds =>
    (fgdsFileRead regs mem file gpuPointer sizeInBytes fileOffset devOffset).getD (-1, mem)
  | some .gpuMemcpy =>
    if file.length < fileOffset + sizeInBytes then (-1, mem)
    else
      match pointerValue gpuPointer with
      | none => (-1, mem)
      | some value =>
        (sizeInBytes, storeAt mem (cVoidP (value + devOffset))
          ((file.drop fileOffset).take sizeInBytes))
  | none => (-1, mem)

/-- `_load_bytes_from_disk_with_memory` for an object of `size` bytes: whether the object is
returned, and the memory. -/
def loadBytesFromDiskWithMemory (regs : List MmapNode) (transport : Option Transport)
    (mem : Nat → UInt8) (file : Bytes) (fgdsBasePointer : Option Nat)
    (dataPtr address size : Nat) : Bool × (Nat → UInt8) :=
  let addr := transferAddr fgdsBasePointer dataPtr
  let devOffset := transferOffset fgdsBasePointer address
  let ret := loadGds regs transport mem file metadataMaxSize addr size devOffset
  (ret.1 = size, ret.2)

/-! ## The library -/

/-- A file of the library's model with these contents. -/
def Holds (file : File) (c : Bytes) : Prop := file.size = c.length ∧ ∀ y, file.byte y = c.getD y 0

/-- The host mapping of a region shows the GPU memory. -/
def Shows (nd : MmapNode) (hostMem gpuMem : Nat → UInt8) : Prop :=
  ∀ o < nd.length, hostMem (nd.hostAddr o) = gpuMem (nd.gpuAddr + o)

section Library

/-- A window of a region, named by a pointer into it, is found in that region. -/
theorem acceptedBy_inside (dev : OpenDevice) {nd : MmapNode} (hnd : nd ∈ dev.head) (op : Opcode)
    {a b n : Nat} (hn : 1 ≤ n) (hin : b + n ≤ nd.length) (hlo : nd.gpuAddr ≤ a)
    (hhi : a + n ≤ nd.gpuAddr + nd.length) : acceptedBy dev.head op a n b = some nd := by
  have hreg := dev.registered nd hnd
  have hlen := hreg.length_lt
  have hsize : 0 < lookupSize op n ∧ lookupSize op n ≤ n := by
    unfold lookupSize
    split
    · omega
    · have hthresh : fgdsSubIoSize ≤ threshold op := by cases op <;> decide
      have hpos : 0 < fgdsSubIoSize := by decide
      omega
  have hfind : findFgdsMmapNode dev.head a (lookupSize op n) = some nd :=
    dev.selects hnd hlo hhi _ hsize.1 hsize.2
  obtain ⟨es, hes, _⟩ := xferWindow_inside hreg hn hin
  rw [acceptedBy, hfind, s64_eq (by omega) (by omega)]
  simp [Option.filter, hes]

variable (dev : ReadyDevice) {nd : MmapNode} (fd : Int) (owner : Nat) {a b n f : Nat}
variable {w : World} {k : Kernel} {mem : Nat → UInt8} {c : Bytes}

/-- The window of a request that names the region by any pointer into it. -/
def pointerWindow (f : Nat) (hnd : nd ∈ dev.head) (hin : b + n ≤ nd.length) (hlo : nd.gpuAddr ≤ a)
    (hhi : a + n ≤ nd.gpuAddr + nd.length) : Window dev.head ⟨fd, a, b, n, f, owner⟩ where
  nd := nd
  b := b
  n := n
  bufOffset := rfl
  nbyte := rfl
  registered := dev.registered nd hnd
  inside := hin
  selects := dev.selects hnd hlo hhi

/-- `fgds_write` of a window of a region does what `Fgds.write` is assumed to do. -/
theorem fgdsWrite_file (hnd : nd ∈ dev.head) (hn : 1 ≤ n) (hin : b + n ≤ nd.length)
    (hlo : nd.gpuAddr ≤ a) (hhi : a + n ≤ nd.gpuAddr + nd.length) (hf : f < 2 ^ 63)
    (hk : FullWrites k) (hfile : Holds (w.files fd) c) (hshows : Shows nd w.mem mem) :
    ∃ res file, fgdsWrite dev.head k dev.ring ⟨fd, a, b, n, f, owner⟩ = some res ∧
      res.ret = n ∧ fgdsFileWrite dev.head mem c a n f b = some file ∧
      Holds ((w.applyAll res.log).files fd) file := by
  obtain ⟨res, cs, hres, _, hret, hperm, ht⟩ :=
    fgdsWrite_window (pointerWindow dev fd owner f hnd hin hlo hhi) rfl hf hn hk dev.idle
  obtain ⟨_, _, hsize, hbyte, hkeep⟩ :
      (w.applyAll res.log).mem = w.mem ∧ _ ∧
      ((w.applyAll res.log).files fd).size = max (w.files fd).size (f + n) ∧
      (∀ j < n, ((w.applyAll res.log).files fd).byte (f + j) = w.mem (nd.hostAddr (b + j))) ∧
      ∀ y, (∀ j < n, y ≠ f + j) → ((w.applyAll res.log).files fd).byte y = (w.files fd).byte y :=
    writes_effect hn hperm ht w
  have hwrite : fgdsFileWrite dev.head mem c a n f b =
      some (writeAt c f (bytesAt mem (nd.gpuAddr + b) n)) := by
    rw [fgdsFileWrite, acceptedBy_inside dev.toOpenDevice hnd .write hn hin hlo hhi,
      Option.map_some]
  refine ⟨res, _, hres, hret, hwrite, ?_, fun y => ?_⟩
  · rw [hsize, hfile.1, writeAt_length, bytesAt_length]
  · rw [writeAt_getD, bytesAt_length]
    split
    · rename_i hy
      have hwin := hbyte (y - f) (by omega)
      rw [Nat.add_sub_cancel' hy.1] at hwin
      rw [hwin, bytesAt_getD _ _ (by omega), hshows _ (by omega), Nat.add_assoc]
    · rw [hkeep y fun j hj => by omega, hfile.2]

/-- `fgds_read` into a window of a region does what `Fgds.read` is assumed to do. -/
theorem fgdsRead_memory (hnd : nd ∈ dev.head) (hn : 1 ≤ n) (hin : b + n ≤ nd.length)
    (hlo : nd.gpuAddr ≤ a) (hhi : a + n ≤ nd.gpuAddr + nd.length) (hf : f < 2 ^ 63)
    (hk : FullReads k (w.files fd).size) (hfile : Holds (w.files fd) c)
    (hshows : Shows nd w.mem mem) :
    ∃ res ret, fgdsRead dev.head k dev.ring ⟨fd, a, b, n, f, owner⟩ = some res ∧
      fgdsFileRead dev.head mem c a n f b = some ret ∧ res.ret = ret.1 ∧
      Shows nd (w.applyAll res.log).mem ret.2 := by
  have hreg := dev.registered nd hnd
  have hlen : ((c.drop f).take n).length = min n (c.length - f) := by simp
  obtain ⟨res, cs, hres, _, hret, hperm, ht⟩ :=
    fgdsRead_window (pointerWindow dev fd owner f hnd hin hlo hhi) rfl hf hn hk dev.idle
  obtain ⟨_, hwin, hout⟩ := reads_effect hreg hin hperm ht w
  change res.ret = (min n ((w.files fd).size - f) : Nat) at hret
  rw [hfile.1] at hret hwin hout
  have hread : fgdsFileRead dev.head mem c a n f b =
      some ((((c.drop f).take n).length : Int),
        storeAt mem (nd.gpuAddr + b) ((c.drop f).take n)) := by
    rw [fgdsFileRead, acceptedBy_inside dev.toOpenDevice hnd .read hn hin hlo hhi,
      Option.map_some]
  refine ⟨res, _, hres, hread, ?_, fun o ho => ?_⟩
  · rw [hret, hlen]
  · simp only [storeAt, hlen]
    split
    · rename_i hy
      have hbyte := hwin (o - b) (by omega)
      rw [Nat.add_sub_cancel' (by omega)] at hbyte
      rw [hbyte, hfile.2]
      have hoff : nd.gpuAddr + o - (nd.gpuAddr + b) = o - b := by omega
      rw [hoff, List.getD_eq_getElem?_getD, List.getD_eq_getElem?_getD,
        List.getElem?_take_of_lt (by omega), List.getElem?_drop]
    · rw [hout _ fun j hj he => ?_, hshows o ho]
      have := hreg.hostAddr_inj ho (by omega) he
      omega

end Library

/-! ## The place of the data -/

section Codec

variable {json : Json} {t : Tensor} {fmt : MemoryFormat} {header file : Bytes}
variable {regs : List MmapNode} {mem : Nat → UInt8} {basePointer : Option Nat}
variable {dataPtr offset : Nat}

/-- Every file that is saved is the header followed by some bytes of the memory. -/
theorem saveGds_some {transport : Option Transport}
    (h : saveGds regs transport json mem t dataPtr fmt basePointer offset = some file) :
    ∃ header src, packMetadata json t fmt versionMetadata = some header ∧
      file = header ++ bytesAt mem src t.data.length := by
  unfold saveGds at h
  cases hpack : packMetadata json t fmt versionMetadata with
  | none => simp [hpack] at h
  | some header =>
    have hlen := packMetadata_length hpack
    simp only [hpack] at h
    rcases transport with _ | _ | _
    · cases h
    · obtain ⟨nd, _, hfile⟩ := Option.map_eq_some_iff.mp h
      exact ⟨header, _, rfl, hfile.symm.trans (writeAt_end hlen _)⟩
    · cases hvalue : pointerValue (transferAddr basePointer dataPtr) with
      | none => simp [hvalue] at h
      | some value =>
        simp only [hvalue] at h
        have hfile := writeAt_ftruncate hlen (bytesAt mem (cVoidP (value + offset)) t.data.length)
        rw [bytesAt_length] at hfile
        exact ⟨header, _, rfl, (Option.some.inj h).symm.trans hfile⟩

/-- A load that succeeds stores what the file has behind the header. -/
theorem loadBytes_stores {transport : Option Transport} {mem' : Nat → UInt8} {address size : Nat}
    (h : loadBytesFromDiskWithMemory regs transport mem file basePointer dataPtr address size =
      (true, mem')) :
    ∃ dest, mem' = storeAt mem dest ((file.drop metadataMaxSize).take size) := by
  have hret : (loadGds regs transport mem file metadataMaxSize (transferAddr basePointer dataPtr)
      size (transferOffset basePointer address)).1 = size := by
    simpa [loadBytesFromDiskWithMemory] using congrArg Prod.fst h
  have hmem := (congrArg Prod.snd h).symm
  simp only [loadBytesFromDiskWithMemory] at hmem
  unfold loadGds at hret hmem
  rcases transport with _ | _ | _
  · simp only at hret
    omega
  · dsimp only at hret hmem
    cases hread : fgdsFileRead regs mem file (transferAddr basePointer dataPtr) size
        metadataMaxSize (transferOffset basePointer address) with
    | none =>
      rw [hread, Option.getD_none] at hret
      omega
    | some ret =>
      obtain ⟨nd, _, rfl⟩ := Option.map_eq_some_iff.mp hread
      rw [hread, Option.getD_some] at hmem
      exact ⟨_, hmem⟩
  · dsimp only at hret hmem
    split at hret
    · simp only at hret
      omega
    · rename_i hfits
      rw [if_neg hfits] at hmem
      cases hvalue : pointerValue (transferAddr basePointer dataPtr) with
      | none =>
        simp only [hvalue] at hret
        omega
      | some value =>
        simp only [hvalue] at hmem
        exact ⟨_, hmem⟩

/-- **The codec.** For every tensor with a supported dtype, every format and every dictionary: if
the text has at most 4088 bytes, 4096 bytes are packed, from which, whatever follows them, the
same values are read; the length that they start with leads to the place where the bytes of the
tensor are saved, and from which they are loaded. A longer text is not packed. -/
theorem metadata_codec {name : String} (hname : dtypeName t.dtype = some name)
    (json : Json) (fmt : MemoryFormat) (extra : ExtraMetadata) :
    ((json.dumps (tensorMeta t name fmt extra)).length ≤ 4088 → ∃ header,
      packMetadata json t fmt extra = some header ∧ header.length = 4096 ∧
      (∀ rest, unpackMetadata json (header ++ rest) =
        some ⟨t.shape, t.dtype, (t.shape.prod * t.dtype.itemsize : Nat), fmt, extra⟩) ∧
      (∀ regs transport mem dataPtr basePointer offset file,
        saveGds regs transport json mem t dataPtr fmt basePointer offset = some file →
        ∃ src, file.drop (8 + unpackQ (header.take 8)) = bytesAt mem src t.data.length) ∧
      ∀ regs transport mem file basePointer dataPtr address size mem',
        loadBytesFromDiskWithMemory regs transport mem file basePointer dataPtr address size =
          (true, mem') →
        ∃ dest, mem' = storeAt mem dest ((file.drop (8 + unpackQ (header.take 8))).take size)) ∧
    (4088 < (json.dumps (tensorMeta t name fmt extra)).length →
      packMetadata json t fmt extra = none) := by
  refine ⟨fun hshort => ?_, (packMetadata_eq_none hname).mpr⟩
  cases hpack : packMetadata json t fmt extra with
  | none =>
    have hlong := (packMetadata_eq_none hname).mp hpack
    omega
  | some header =>
    have hoff : 8 + unpackQ (header.take 8) = metadataMaxSize := by
      rw [packMetadata_take hpack, metadataMaxSize]
    refine ⟨header, rfl, packMetadata_length hpack, fun rest => ?_, ?_, ?_⟩
    · rw [unpackMetadata_append hpack, Tensor.info, t.size]
    · intro regs transport mem dataPtr basePointer offset file hsave
      obtain ⟨saved, src, hsaved, rfl⟩ := saveGds_some hsave
      exact ⟨src, by rw [hoff, List.drop_left' (packMetadata_length hsaved)]⟩
    · intro regs transport mem file basePointer dataPtr address size mem' hload
      rw [hoff]
      exact loadBytes_stores hload

end Codec

theorem metadata_codec_sample :
    ∃ header, packMetadata sampleJson twoBytes 1 versionMetadata = some header ∧
      header.length = 4096 ∧ ∀ rest, unpackMetadata sampleJson (header ++ rest) =
        some ⟨[2], .uint8, 2, 1, versionMetadata⟩ := by
  have hname : dtypeName twoBytes.dtype = some "U8" := rfl
  obtain ⟨header, hpack, hlen, hread, _⟩ :=
    (metadata_codec hname sampleJson 1 versionMetadata).1 (by decide +kernel)
  exact ⟨header, hpack, hlen, hread⟩

end Fgds.Backend
