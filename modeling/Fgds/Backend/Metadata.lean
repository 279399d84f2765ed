import Mathlib.Algebra.BigOperators.Group.List.Basic
import Mathlib.Data.List.DropRight

/-!
# The metadata of a saved chunk

`pack_metadata` and `unpack_metadata` of the storage backend: a JSON object with the dtype, the
shape, the size and the format of a tensor, padded with blanks to 4096 bytes. The same bytes are
the header of the data file and the contents of the metadata file. JSON itself is a parameter.

* `packMetadata_length`: the header has 4096 bytes;
* `unpackMetadata_packMetadata`: what was packed is read back.
-/

namespace Fgds.Backend

abbrev Bytes := List UInt8

/-- `_METADATA_MAX_SIZE`. -/
def metadataMaxSize : Nat := 4096

/-- `str(_METADATA_VERSION)`. -/
def metadataVersion : String := "1"

/-! ## Tensors -/

/-- The dtypes of `torch_dtypes`, and any other one by its item size. -/
inductive Dtype where
  | half
  | bfloat16
  | float32
  | float64
  | uint8
  | uint16
  | uint32
  | uint64
  | int8
  | int16
  | int32
  | int64
  | float8E4m3fn
  | float8E5m2
  | other (itemsize : Nat)
  deriving DecidableEq, Repr

def Dtype.itemsize : Dtype → Nat
  | half | bfloat16 | uint16 | int16 => 2
  | float32 | uint32 | int32 => 4
  | float64 | uint64 | int64 => 8
  | uint8 | int8 | float8E4m3fn | float8E5m2 => 1
  | other itemsize => itemsize

def torchDtypes : List (Dtype × String) :=
  [(.half, "F16"), (.bfloat16, "BF16"), (.float32, "F32"), (.float64, "F64"), (.uint8, "U8"),
    (.uint16, "U16"), (.uint32, "U32"), (.uint64, "U64"), (.int8, "I8"), (.int16, "I16"),
    (.int32, "I32"), (.int64, "I64"), (.float8E4m3fn, "F8E4M3FN"), (.float8E5m2, "F8E5M2")]

def dtypeName (d : Dtype) : Option String := torchDtypes.lookup d

/-- `torch_dtypes_inverse`. -/
def dtypeOfName (name : String) : Option Dtype :=
  (torchDtypes.find? fun p => p.2 == name).map Prod.fst

theorem dtypeOfName_dtypeName {d : Dtype} {name : String} (h : dtypeName d = some name) :
    dtypeOfName name = some d := by
  cases d with
  | other itemsize => cases h
  | _ =>
    cases h
    decide

/-- A contiguous tensor; `data` are its bytes, as many as its shape and dtype say. -/
structure Tensor where
  dtype : Dtype
  shape : List Nat
  data : Bytes
  size : data.length = shape.prod * dtype.itemsize

/-! ## Packing -/

/-- A memory format by its `value`. -/
abbrev MemoryFormat := Nat

/-- A dictionary of strings. -/
structure ExtraMetadata where
  entries : List (String × String)
  distinct : (entries.map Prod.fst).Nodup
  deriving DecidableEq, Repr

def ExtraMetadata.get? (extra : ExtraMetadata) (key : String) : Option String :=
  extra.entries.lookup key

/-- What `_save_gds` passes: `lmcache_version=str(_METADATA_VERSION)`. -/
def versionMetadata : ExtraMetadata := ⟨[("lmcache_version", metadataVersion)], by simp⟩

/-- The object under `"kvcache"`. -/
structure TensorMeta where
  dtype : String
  shape : List Nat
  dataOffsets : Int × Int
  fmt : MemoryFormat
  metadata : ExtraMetadata
  deriving DecidableEq, Repr

/-- `json.dumps` and `json.loads` with the UTF-8 encoding: what was written is read back, and
the text of an object does not end in a blank. -/
structure Json where
  dumps : TensorMeta → Bytes
  loads : Bytes → Option TensorMeta
  loads_dumps : ∀ m, loads (dumps m) = some m
  dumps_last : ∀ m, (dumps m).getLast? ≠ some 32

/-- `struct.pack("<Q", n)`. -/
def packQ (n : Nat) : Bytes := (List.range 8).map fun i => UInt8.ofNat (n / 256 ^ i)

def unpackQ (bs : Bytes) : Nat := bs.foldr (fun b n => b.toNat + 256 * n) 0

/-- The metadata that `pack_metadata` writes for a tensor. -/
def tensorMeta (t : Tensor) (name : String) (fmt : MemoryFormat) (extra : ExtraMetadata) :
    TensorMeta where
  dtype := name
  shape := t.shape
  dataOffsets := (0, t.data.length)
  fmt := fmt
  metadata := extra

/-- `pack_metadata`; `none` is an exception. -/
def packMetadata (json : Json) (t : Tensor) (fmt : MemoryFormat) (extra : ExtraMetadata) :
    Option Bytes :=
  match dtypeName t.dtype with
  | none => none
  | some name =>
    let strMeta := json.dumps (tensorMeta t name fmt extra)
    if strMeta.length > metadataMaxSize - 8 then none
    else
      let strMeta := strMeta ++ List.replicate (metadataMaxSize - 8 - strMeta.length) 32
      some (packQ strMeta.length ++ strMeta)

/-- What `unpack_metadata` returns. -/
structure TensorInfo where
  shape : List Nat
  dtype : Dtype
  nbytes : Int
  fmt : MemoryFormat
  metadata : ExtraMetadata
  deriving DecidableEq, Repr

/-- `unpack_metadata`; `none` is an exception. -/
def unpackMetadata (json : Json) (buffer : Bytes) : Option TensorInfo :=
  if buffer.length < 8 then none
  else
    let metaLen := unpackQ (buffer.take 8)
    let strMeta := (buffer.drop 8).take metaLen
    match json.loads (strMeta.rdropWhile fun b => b == 32) with
    | none => none
    | some tm =>
      match dtypeOfName tm.dtype with
      | none => none
      | some dtype =>
        some ⟨tm.shape, dtype, tm.dataOffsets.2 - tm.dataOffsets.1, tm.fmt, tm.metadata⟩

/-- What was saved about a tensor. -/
def Tensor.info (t : Tensor) (fmt : MemoryFormat) (extra : ExtraMetadata) : TensorInfo where
  shape := t.shape
  dtype := t.dtype
  nbytes := t.data.length
  fmt := fmt
  metadata := extra

section Pack

variable {json : Json} {t : Tensor} {fmt : MemoryFormat} {extra : ExtraMetadata} {header : Bytes}

/-- The parts of a packed header. -/
theorem packMetadata_some (h : packMetadata json t fmt extra = some header) :
    ∃ name, dtypeName t.dtype = some name ∧
      ∃ blanks, header = packQ 4088 ++ (json.dumps (tensorMeta t name fmt extra) ++
          List.replicate blanks 32) ∧
        (json.dumps (tensorMeta t name fmt extra)).length + blanks = 4088 := by
  unfold packMetadata at h
  cases hname : dtypeName t.dtype with
  | none => simp [hname] at h
  | some name =>
    obtain ⟨text, htext⟩ : ∃ text, text = json.dumps (tensorMeta t name fmt extra) := ⟨_, rfl⟩
    simp only [hname, metadataMaxSize, ← htext] at h
    refine ⟨name, rfl, 4096 - 8 - text.length, ?_, ?_⟩
    · rw [← htext]
      by_cases hlen : text.length > 4096 - 8
      · rw [if_pos hlen] at h
        cases h
      · have hfull : (text ++ List.replicate (4096 - 8 - text.length) 32).length = 4088 := by
          rw [List.length_append, List.length_replicate]
          omega
        rw [if_neg hlen, hfull] at h
        exact (Option.some.inj h).symm
    · rw [← htext]
      by_cases hlen : text.length > 4096 - 8
      · rw [if_pos hlen] at h
        cases h
      · omega

theorem packQ_length (n : Nat) : (packQ n).length = 8 := by simp [packQ]

theorem packMetadata_length (h : packMetadata json t fmt extra = some header) :
    header.length = metadataMaxSize := by
  obtain ⟨name, _, blanks, rfl, hlen⟩ := packMetadata_some h
  rw [List.length_append, packQ_length, List.length_append, List.length_replicate]
  simp only [metadataMaxSize]
  omega

/-- Blanks at the end are dropped again. -/
theorem rdropWhile_blanks {text : Bytes} (h : text.getLast? ≠ some 32) (n : Nat) :
    (text ++ List.replicate n 32).rdropWhile (fun b => b == 32) = text := by
  induction n with
  | zero =>
    rw [List.replicate_zero, List.append_nil, List.rdropWhile_eq_self_iff]
    intro hne hlast
    rw [List.getLast?_eq_some_getLast hne] at h
    exact h (congrArg some (by simpa using hlast))
  | succ n ih =>
    rw [List.replicate_succ', ← List.append_assoc, List.rdropWhile_concat_pos _ _ _ (by simp), ih]

/-- The length that stands in front of the text. -/
theorem packMetadata_take (h : packMetadata json t fmt extra = some header) :
    unpackQ (header.take 8) = metadataMaxSize - 8 := by
  obtain ⟨name, _, blanks, rfl, _⟩ := packMetadata_some h
  rw [List.take_left' (packQ_length 4088)]
  decide

/-- What was packed is read from every buffer that starts with it. -/
theorem unpackMetadata_append (h : packMetadata json t fmt extra = some header) (rest : Bytes) :
    unpackMetadata json (header ++ rest) = some (t.info fmt extra) := by
  have hlen := packMetadata_length h
  have hq := packMetadata_take h
  obtain ⟨name, hname, blanks, rfl, hfill⟩ := packMetadata_some h
  have htake : ∀ xs : Bytes, (packQ 4088 ++ xs).take 8 = packQ 4088 := fun xs =>
    List.take_left' (packQ_length 4088)
  have htext : (json.dumps (tensorMeta t name fmt extra) ++ List.replicate blanks 32 ++ rest).take
      4088 = json.dumps (tensorMeta t name fmt extra) ++ List.replicate blanks 32 :=
    List.take_left' (by rw [List.length_append, List.length_replicate, hfill])
  rw [htake] at hq
  unfold unpackMetadata
  rw [if_neg (by rw [List.length_append, hlen, metadataMaxSize]; omega), List.append_assoc, htake,
    hq, List.drop_left' (packQ_length 4088)]
  simp only [metadataMaxSize, Nat.reduceSub, htext, rdropWhile_blanks (json.dumps_last _),
    json.loads_dumps]
  simp only [tensorMeta, dtypeOfName_dtypeName hname, Tensor.info, Int.sub_zero]

theorem unpackMetadata_packMetadata (h : packMetadata json t fmt extra = some header) :
    unpackMetadata json header = some (t.info fmt extra) := by
  have hread := unpackMetadata_append h []
  rwa [List.append_nil] at hread

/-- Packing fails exactly if the text is too long. -/
theorem packMetadata_eq_none {name : String} (hname : dtypeName t.dtype = some name) :
    packMetadata json t fmt extra = none ↔
      4088 < (json.dumps (tensorMeta t name fmt extra)).length := by
  unfold packMetadata
  simp only [hname, metadataMaxSize, Nat.reduceSub, gt_iff_lt]
  by_cases hlong : 4088 < (json.dumps (tensorMeta t name fmt extra)).length
  · simp only [hlong, ↓reduceIte]
  · simp only [hlong, ↓reduceIte, reduceCtorEq]

end Pack

/-! ## Files -/

/-- A write of `data` at `offset`; a gap behind the end of the file is filled with zeros. -/
def writeAt (file : Bytes) (offset : Nat) (data : Bytes) : Bytes :=
  file.take offset ++ List.replicate (offset - file.length) 0 ++ data ++
    file.drop (offset + data.length)

/-- Appending. -/
theorem writeAt_end {file : Bytes} {offset : Nat} (h : file.length = offset) (data : Bytes) :
    writeAt file offset data = file ++ data := by
  rw [writeAt, List.take_of_length_le (by omega), List.drop_eq_nil_of_le (by omega), h,
    Nat.sub_self]
  simp

/-! ## Puts -/

/-- A chunk to be saved, with the header that `pack_metadata` gives for it. -/
structure Put (json : Json) (Key : Type) where
  key : Key
  tensor : Tensor
  fmt : MemoryFormat
  header : Bytes
  packed : packMetadata json tensor fmt versionMetadata = some header

/-- The data file: the header followed by all bytes of the tensor. -/
def Put.image {json : Json} {Key : Type} (p : Put json Key) : Bytes := p.header ++ p.tensor.data

end Fgds.Backend
