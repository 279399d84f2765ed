import Fgds.Backend.SaveLoad
import Fgds.XferSafety

/-!
# The two ways to move a chunk

`_save_gds` and `_load_gds` move the bytes of a chunk with the library, or, without it, by a GPU
copy. When saving, the branch for the library uses `dev_offset`, which is 0 if there is no
registered base; the other branch adds `device_offset`, although the pointer is the tensor's own
then. And the library counts the offset from the start of the region that contains the pointer,
the copy from the pointer.

* `transports_interchangeable_iff`: the branches can be exchanged if and only if no pointer is
  NULL and there is a registered base, or the tensor starts a region and has no offset;
* `transports_differ`: a tensor without a registered base and with an offset, and one in the
  middle of a region.
-/

namespace Fgds.Backend

open Fgds.Lib.CInt Fgds.Device Fgds.Uring Fgds.Transfer

/-! ## Placements -/

/-- The GPU address of a tensor. -/
def tensorAddress (basePointer : Option Nat) (deviceOffset dataPtr : Nat) : Nat :=
  match basePointer with
  | none => dataPtr
  | some p => p + deviceOffset

/-- Where an object with the bytes of `t` lies, among the regions registered with the library. The
transfer of the library completes: it is found in a region, which starts at the base pointer if
there is one. -/
structure Placement (regs : List MmapNode) (op : Opcode) (t : Tensor) where
  basePointer : Option Nat
  deviceOffset : Nat
  dataPtr : Nat
  inMemory : tensorAddress basePointer deviceOffset dataPtr < 2 ^ 64
  endInMemory : tensorAddress basePointer deviceOffset dataPtr + t.data.length ≤ 2 ^ 64
  region : MmapNode
  accepted : acceptedBy regs op (basePointer.getD dataPtr) t.data.length
    (transferOffset basePointer deviceOffset) = some region
  atBase : ∀ p ∈ basePointer, region.gpuAddr = p

namespace Placement

variable {regs : List MmapNode} {op : Opcode} {t : Tensor} (pl : Placement regs op t)

def address : Nat := tensorAddress pl.basePointer pl.deviceOffset pl.dataPtr

/-- The pointer that the branches start from. -/
def pointer : Nat := pl.basePointer.getD pl.dataPtr

/-- There is a base, or the object starts a region. -/
def AtStart : Prop := pl.basePointer.isSome ∨ pl.region.gpuAddr = pl.dataPtr

end Placement

section Interchange

variable {regs : List MmapNode} {op : Opcode} {json : Json} {t : Tensor} {fmt : MemoryFormat}
variable {header : Bytes}

/-- Whichever branch saves the tensor and whichever loads it: the file is the header followed by
the bytes of the tensor, and these are restored at the destination; nothing else changes. -/
def Interchangeable (json : Json) (fmt : MemoryFormat) (header : Bytes)
    (src : Placement regs .write t) (dst : Placement regs .read t) : Prop :=
  ∀ mem, bytesAt mem src.address t.data.length = t.data → ∀ saver loader : Transport,
    ∃ file, saveGds regs (some saver) json mem t src.dataPtr fmt src.basePointer
        src.deviceOffset = some file ∧ file = header ++ t.data ∧
      ∀ mem', loadBytesFromDiskWithMemory regs (some loader) mem' file dst.basePointer dst.dataPtr
        dst.deviceOffset t.data.length = (true, storeAt mem' dst.address t.data)

/-- The condition. -/
def Compatible (src : Placement regs .write t) (dst : Placement regs .read t) : Prop :=
  src.pointer ≠ 0 ∧ dst.pointer ≠ 0 ∧ src.AtStart ∧ dst.AtStart ∧
    (src.basePointer.isSome ∨ u64 src.deviceOffset = 0)

/-! ## Addresses -/

theorem cVoidP_eq {n : Nat} (h : n < 2 ^ 64) : cVoidP n = n := u64_eq rfl h

theorem cVoidP_add_multiple {n m : Nat} (h : n < 2 ^ 64) (hm : u64 m = 0) : cVoidP (n + m) = n := by
  unfold cVoidP u64 at *
  omega

theorem transferAddr_eq (pl : Placement regs op t) :
    transferAddr pl.basePointer pl.dataPtr = pl.pointer := by
  have hlt := pl.inMemory
  unfold tensorAddress at hlt
  unfold transferAddr Placement.pointer
  cases hbase : pl.basePointer with
  | none =>
    simp only [hbase] at hlt
    exact cVoidP_eq hlt
  | some p =>
    simp only [hbase] at hlt
    exact cVoidP_eq (by omega)

/-- With `dev_offset` the pointer gives the address of the tensor. -/
theorem pointer_add_transferOffset (pl : Placement regs op t) :
    pl.pointer + transferOffset pl.basePointer pl.deviceOffset = pl.address := by
  unfold Placement.pointer Placement.address transferOffset tensorAddress
  cases pl.basePointer with
  | none => rfl
  | some p => rfl

/-- The address to which the copy is made, or from which it is made if there is a base. -/
theorem cVoidP_address (pl : Placement regs op t) :
    cVoidP (pl.pointer + transferOffset pl.basePointer pl.deviceOffset) = pl.address := by
  rw [pointer_add_transferOffset]
  exact cVoidP_eq pl.inMemory

/-- Where the library finds the bytes of an object. -/
def Placement.libraryAddress (pl : Placement regs op t) : Nat :=
  pl.region.gpuAddr + transferOffset pl.basePointer pl.deviceOffset

theorem libraryAddress_eq_iff (pl : Placement regs op t) :
    pl.libraryAddress = pl.address ↔ pl.AtStart := by
  have hbase := pl.atBase
  unfold Placement.libraryAddress Placement.address Placement.AtStart transferOffset tensorAddress
  cases hp : pl.basePointer with
  | none => simp
  | some p => simp [hbase p hp]

/-! ## What the branches do -/

theorem saveGds_fgds (hpack : packMetadata json t fmt versionMetadata = some header)
    (src : Placement regs .write t) {mem : Nat → UInt8} :
    saveGds regs (some .fgds) json mem t src.dataPtr fmt src.basePointer src.deviceOffset =
      some (header ++ bytesAt mem src.libraryAddress t.data.length) := by
  have hfound : acceptedBy regs .write src.pointer t.data.length
      (transferOffset src.basePointer src.deviceOffset) = some src.region := src.accepted
  simp only [saveGds, hpack, fgdsFileWrite, transferAddr_eq, hfound, Option.map_some]
  rw [writeAt_end (packMetadata_length hpack), Placement.libraryAddress]

/-- The copy starts at the pointer with `device_offset`, whether there is a base or not. -/
theorem saveGds_gpuMemcpy (hpack : packMetadata json t fmt versionMetadata = some header)
    (src : Placement regs .write t) {mem : Nat → UInt8} :
    saveGds regs (some .gpuMemcpy) json mem t src.dataPtr fmt src.basePointer src.deviceOffset =
      if src.pointer = 0 then none
      else
        some (header ++ bytesAt mem (cVoidP (src.pointer + src.deviceOffset)) t.data.length) := by
  simp only [saveGds, hpack, transferAddr_eq, pointerValue]
  by_cases hnull : src.pointer = 0
  · simp only [if_pos hnull]
  · have hfile := writeAt_ftruncate (packMetadata_length hpack)
      (bytesAt mem (cVoidP (src.pointer + src.deviceOffset)) t.data.length)
    rw [bytesAt_length] at hfile
    simp only [if_neg hnull, hfile]

/-- If there is a base or no offset, the copy is made from the tensor. -/
theorem copy_address (src : Placement regs op t)
    (h : src.basePointer.isSome ∨ u64 src.deviceOffset = 0) :
    cVoidP (src.pointer + src.deviceOffset) = src.address := by
  have hlt := src.inMemory
  unfold Placement.pointer Placement.address tensorAddress at *
  cases hbase : src.basePointer with
  | none =>
    simp only [hbase, Option.isSome_none, Bool.false_eq_true, false_or, Option.getD_none] at h hlt ⊢
    exact cVoidP_add_multiple hlt h
  | some p =>
    simp only [hbase, Option.getD_some] at hlt ⊢
    exact cVoidP_eq hlt

/-- Where a branch puts the bytes that it loads. -/
def Placement.loadAddress (loader : Transport) (dst : Placement regs op t) : Nat :=
  match loader with
  | .fgds => dst.libraryAddress
  | .gpuMemcpy => dst.address

/-- Both branches restore the bytes; only the copy minds a NULL pointer. -/
theorem loadBytes_image (hlen : header.length = metadataMaxSize) (loader : Transport)
    (dst : Placement regs .read t) (mem : Nat → UInt8) :
    loadBytesFromDiskWithMemory regs (some loader) mem (header ++ t.data) dst.basePointer
        dst.dataPtr dst.deviceOffset t.data.length =
      if loader = .gpuMemcpy ∧ dst.pointer = 0 then (false, mem)
      else (true, storeAt mem (dst.loadAddress loader) t.data) := by
  have hdata : ((header ++ t.data).drop metadataMaxSize).take t.data.length = t.data := by
    rw [List.drop_left' hlen, List.take_length]
  simp only [loadBytesFromDiskWithMemory, transferAddr_eq]
  cases loader with
  | fgds =>
    have hfound : acceptedBy regs .read dst.pointer t.data.length
        (transferOffset dst.basePointer dst.deviceOffset) = some dst.region := dst.accepted
    rw [if_neg (by simp)]
    simp only [loadGds, fgdsFileRead, hfound, Option.map_some, Option.getD_some, hdata,
      decide_true, Placement.loadAddress, Placement.libraryAddress]
  | gpuMemcpy =>
    have hbig : ¬ (header ++ t.data).length < metadataMaxSize + t.data.length := by
      rw [List.length_append, hlen]
      exact Nat.lt_irrefl _
    simp only [loadGds, if_neg hbig, pointerValue, hdata]
    by_cases hnull : dst.pointer = 0
    · simp only [hnull, ↓reduceIte, and_self, Prod.mk.injEq, and_true, decide_eq_false_iff_not]
      omega
    · simp only [hnull, ↓reduceIte, and_false, cVoidP_address, decide_true, Placement.loadAddress]

/-! ## The condition is what it takes -/

/-- A byte of the range at `b` that is not in the range at `a`. -/
theorem exists_outside {n a b : Nat} (hpos : 0 < n) (hab : a ≠ b) :
    ∃ k < n, ¬ (a ≤ b + k ∧ b + k < a + n) := by
  rcases Nat.lt_or_gt_of_ne hab with hlt | hgt
  · exact ⟨n - 1, by omega, by omega⟩
  · exact ⟨0, hpos, by omega⟩

/-- The bytes of `data` at `a` and something else at `b`. -/
theorem exists_memory_differs {data : Bytes} (hne : data ≠ []) {a b : Nat} (hab : a ≠ b) :
    ∃ mem, bytesAt mem a data.length = data ∧ bytesAt mem b data.length ≠ data := by
  obtain ⟨k, hk, hout⟩ := exists_outside (List.length_pos_iff.mpr hne) hab
  refine ⟨storeAt (fun _ => data.getD k 0 + 1) a data, bytesAt_storeAt _ _ _, fun h => ?_⟩
  have hbyte := bytesAt_eq_iff.mp h k hk
  rw [storeAt, if_neg hout] at hbyte
  simp at hbyte

/-- Storing `data` at two places makes a difference. -/
theorem exists_store_differs {data : Bytes} (hne : data ≠ []) {a b : Nat} (hab : a ≠ b) :
    ∃ mem, storeAt mem b data ≠ storeAt mem a data := by
  obtain ⟨k, hk, hout⟩ := exists_outside (List.length_pos_iff.mpr hne) hab
  refine ⟨fun _ => data.getD k 0 + 1, fun h => ?_⟩
  have hbyte := congrFun h (b + k)
  rw [storeAt, if_pos (by omega), Nat.add_sub_cancel_left, storeAt, if_neg hout] at hbyte
  simp at hbyte

/-- Without a base the library accepts no empty object. -/
theorem data_ne_nil {pl : Placement regs op t} (hreg : ∀ nd ∈ regs, nd.Registered)
    (hbase : pl.basePointer = none) : t.data ≠ [] := by
  intro hnil
  have hfound := pl.accepted
  rw [hbase, hnil, transferOffset, acceptedBy, Option.filter_eq_some_iff] at hfound
  have hzero := XferSafety.xferWindow_zero
    (hreg _ (List.mem_of_find?_eq_some hfound.1))
    (show u64 ((0 : Nat) + s64 (0 : Nat)) = 0 from rfl)
  have hsome := hfound.2
  rw [List.length_nil, hzero] at hsome
  cases hsome

/-- **Fallback.** For every tensor that can be packed, and all places of the tensor and of the
object that it is loaded into: saving and loading can each go through the library or through the
copy, with the same file and the same bytes, if and only if no pointer is NULL, each of the two is
in the region of a base or starts a region, and the tensor has a base or no offset. -/
theorem transports_interchangeable_iff (hreg : ∀ nd ∈ regs, nd.Registered)
    (hpack : packMetadata json t fmt versionMetadata = some header)
    (src : Placement regs .write t) (dst : Placement regs .read t) :
    Interchangeable json fmt header src dst ↔ Compatible src dst := by
  have hlen := packMetadata_length hpack
  constructor
  · intro h
    -- with some memory that holds the tensor: neither pointer is NULL
    obtain ⟨file, hsave, rfl, hload⟩ :=
      h (storeAt (fun _ => 0) src.address t.data) (bytesAt_storeAt _ _ _) .gpuMemcpy .gpuMemcpy
    have hdst : dst.pointer ≠ 0 := fun hnull => by
      have hfalse := hload fun _ => 0
      rw [loadBytes_image hlen, if_pos ⟨rfl, hnull⟩] at hfalse
      cases congrArg Prod.fst hfalse
    refine ⟨fun hnull => ?_, hdst, ?_, ?_, ?_⟩
    · rw [saveGds_gpuMemcpy hpack, if_pos hnull] at hsave
      cases hsave
    · -- the library saves what it finds at the start of the region
      by_contra hstart
      have hbase : src.basePointer = none :=
        Option.not_isSome_iff_eq_none.mp fun hsome => hstart (.inl hsome)
      have hother : src.address ≠ src.libraryAddress :=
        fun heq => hstart ((libraryAddress_eq_iff src).mp heq.symm)
      obtain ⟨mem, hmem, hdiff⟩ := exists_memory_differs (data_ne_nil hreg hbase) hother
      obtain ⟨file, hsave, rfl, _⟩ := h mem hmem .fgds .fgds
      rw [saveGds_fgds hpack] at hsave
      exact hdiff (List.append_cancel_left (Option.some.inj hsave))
    · -- and loads to it
      by_contra hstart
      have hbase : dst.basePointer = none :=
        Option.not_isSome_iff_eq_none.mp fun hsome => hstart (.inl hsome)
      have hother : dst.address ≠ dst.libraryAddress :=
        fun heq => hstart ((libraryAddress_eq_iff dst).mp heq.symm)
      obtain ⟨mem, hdiff⟩ := exists_store_differs (data_ne_nil hreg hbase) hother
      obtain ⟨file, _, rfl, hload⟩ :=
        h (storeAt (fun _ => 0) src.address t.data) (bytesAt_storeAt _ _ _) .gpuMemcpy .fgds
      have hstored := hload mem
      rw [loadBytes_image hlen, if_neg (by simp)] at hstored
      exact hdiff (congrArg Prod.snd hstored)
    · by_contra hno
      simp only [not_or] at hno
      obtain ⟨hbase, hoff⟩ := hno
      obtain hbase : src.basePointer = none := Option.not_isSome_iff_eq_none.mp hbase
      have hlt := src.inMemory
      have haddr : src.address = src.pointer := by
        simp only [Placement.address, Placement.pointer, tensorAddress, hbase, Option.getD_none]
      have hother : src.address ≠ cVoidP (src.pointer + src.deviceOffset) := by
        rw [haddr]
        have hpointer : src.pointer < 2 ^ 64 := haddr ▸ hlt
        unfold cVoidP u64 at *
        omega
      obtain ⟨mem, hmem, hdiff⟩ := exists_memory_differs (data_ne_nil hreg hbase) hother
      obtain ⟨file, hsave, rfl, _⟩ := h mem hmem .gpuMemcpy .fgds
      rw [saveGds_gpuMemcpy hpack] at hsave
      split at hsave
      · cases hsave
      · exact hdiff (List.append_cancel_left (Option.some.inj hsave))
  · rintro ⟨hsrc, hdst, hsrcStart, hdstStart, hcond⟩ mem hmem saver loader
    refine ⟨header ++ t.data, ?_, rfl, fun mem' => ?_⟩
    · cases saver with
      | fgds => rw [saveGds_fgds hpack, (libraryAddress_eq_iff src).mpr hsrcStart, hmem]
      | gpuMemcpy => rw [saveGds_gpuMemcpy hpack, if_neg hsrc, copy_address src hcond, hmem]
    · rw [loadBytes_image hlen, if_neg fun h => hdst h.2]
      cases loader with
      | fgds => rw [Placement.loadAddress, (libraryAddress_eq_iff dst).mpr hdstStart]
      | gpuMemcpy => rfl

/-- If the two branches find different bytes, no file is right for both. -/
theorem not_interchangeable (hpack : packMetadata json t fmt versionMetadata = some header)
    {src : Placement regs .write t} (dst : Placement regs .read t) (hnull : src.pointer ≠ 0)
    (mem : Nat → UInt8) (hmem : bytesAt mem src.address t.data.length = t.data)
    (hdiff : bytesAt mem src.libraryAddress t.data.length ≠
      bytesAt mem (cVoidP (src.pointer + src.deviceOffset)) t.data.length) :
    ¬ ∃ header', Interchangeable json fmt header' src dst := by
  rintro ⟨header', h⟩
  obtain ⟨_, hfgds, rfl, _⟩ := h mem hmem .fgds .fgds
  obtain ⟨_, hcopy, rfl, _⟩ := h mem hmem .gpuMemcpy .fgds
  rw [saveGds_fgds hpack] at hfgds
  rw [saveGds_gpuMemcpy hpack, if_neg hnull] at hcopy
  exact hdiff (List.append_cancel_left (Option.some.inj (hfgds.trans hcopy.symm)))

end Interchange

/-! ## An example -/

/-- Two bytes at offset 512 of the first region. -/
def sampleBased (op : Opcode) : Placement twoRegions.head op twoBytes where
  basePointer := some 1048576
  deviceOffset := 512
  dataPtr := 1049088
  inMemory := by decide
  endInMemory := by decide
  region := oneSegment 1 4294967296 1048576 4194304
  accepted := acceptedBy_inside twoRegions.toOpenDevice List.mem_cons_self op (by decide)
    (by decide) (by decide) (by decide)
  atBase := by decide

/-- Two bytes in the second region, `o` bytes from its start, without a base. -/
def sampleAlone (op : Opcode) (o offset : Nat) (ho : o < 4194302) :
    Placement twoRegions.head op twoBytes where
  basePointer := none
  deviceOffset := offset
  dataPtr := 16777216 + o
  inMemory := by
    show 16777216 + o < 2 ^ 64
    omega
  endInMemory := by
    show 16777216 + o + 2 ≤ 2 ^ 64
    omega
  region := oneSegment 2 8589934592 16777216 4194304
  accepted := by
    refine acceptedBy_inside twoRegions.toOpenDevice (List.mem_cons_of_mem _ List.mem_cons_self) op
      (by decide) ?_ ?_ ?_
    · show 0 + 2 ≤ 4194304
      decide
    · show 16777216 ≤ 16777216 + o
      omega
    · show 16777216 + o + 2 ≤ 16777216 + 4194304
      omega
  atBase := by simp

theorem transports_interchangeable_based :
    ∃ header, Interchangeable sampleJson 1 header (sampleBased .write)
      (sampleAlone .read 0 512 (by decide)) :=
  ⟨_, (transports_interchangeable_iff twoRegions.registered (samplePut 0).packed _ _).mpr
    ⟨by decide, by decide, .inl rfl, .inr rfl, .inl rfl⟩⟩

/-- At the start of the region with an offset the copy saves the bytes behind the offset; in the
middle of the region the library saves the bytes at its start. -/
theorem transports_differ :
    (¬ ∃ header, Interchangeable sampleJson 1 header (sampleAlone .write 0 512 (by decide))
      (sampleBased .read)) ∧
    ¬ ∃ header, Interchangeable sampleJson 1 header (sampleAlone .write 4096 0 (by decide))
      (sampleBased .read) :=
  ⟨not_interchangeable (samplePut 0).packed _ (by decide)
      (storeAt (fun _ => 0) 16777216 twoBytes.data) (bytesAt_storeAt _ _ _) (by decide),
    not_interchangeable (samplePut 0).packed _ (by decide)
      (storeAt (fun _ => 0) 16781312 twoBytes.data) (bytesAt_storeAt _ _ _) (by decide)⟩

end Fgds.Backend
