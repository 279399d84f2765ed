import Fgds.Backend.Restart
import Fgds.Safetensors.RoundTrip

/-!
# Chunk files as safetensors files

The storage backend writes a chunk as a header of 4096 bytes, the output of `pack_metadata`, and
the bytes of the tensor. Here the file is read by the safetensors loader, which knows nothing about
the backend: the format and the metadata of the chunk are keys it skips.

* `chunkText`: what `json.dumps` gives for the metadata of a chunk;
* `parseTensor_chunk`: how its tensor is read;
* `chunk_loads`: a saved chunk is loaded and passes the check of its offsets, unless its dtype is
  one that only the backend has or a dimension is 0.
-/

namespace Fgds.Safetensors

open Backend (Bytes Json Tensor MemoryFormat metadataVersion packMetadata packMetadata_some packQ
  packQ_length tensorMeta textJson_dumps unpackQ versionMetadata)
open Lib
open Json (Parses objectText arrayText quoted)

/-! ## The text -/

/-- The fields of the dictionary under `"kvcache"`. -/
def chunkFields (t : Tensor) (name : String) (fmt : MemoryFormat) : List (Text × Text) :=
  [(ascii "dtype", quoted (ascii name)), (ascii "shape", arrayText (t.shape.map Decimal.text)),
    (ascii "data_offsets", arrayText [Decimal.text 0, Decimal.text t.data.length]),
    (ascii "fmt", Decimal.text fmt),
    (ascii "__metadata__", objectText [(ascii "lmcache_version", quoted (ascii metadataVersion))])]

/-- `json.dumps` of the metadata that `_save_gds` packs. -/
def chunkText (t : Tensor) (name : String) (fmt : MemoryFormat) : Text :=
  objectText [(ascii "kvcache", objectText (chunkFields t name fmt))]

/-- The dtype of the loader for a chunk, or the error that refuses it: some dtypes only the backend
has, and a tensor without data must not have `data_offsets`. -/
def chunkDtype (t : Tensor) (name : String) : Except Text Dtype :=
  match dtypeNames.lookup (ascii name) with
  | none => .error (ascii "Unknown `dtype` string: " ++ ascii name ++ ascii ".\n")
  | some dtype => if 0 ∈ t.shape then .error (emptyTensor (ascii "kvcache")) else .ok dtype

/-- A tensor of the backend in the types of the loader. -/
def chunkTensor (t : Tensor) (dtype : Dtype) : TensorT :=
  ⟨dtype, t.shape.map UInt64.ofNat, (0, UInt64.ofNat t.data.length)⟩

section Values

variable {N : Type} (double : Double N)

def chunkValue (t : Tensor) (name : String) (fmt : MemoryFormat) : Json.Value N :=
  .object [(ascii "dtype", .string (ascii name)),
    (ascii "shape", .array (t.shape.map fun n => .number (double.fromChars (Decimal.text n)))),
    (ascii "data_offsets", .array [.number (double.fromChars (Decimal.text 0)),
      .number (double.fromChars (Decimal.text t.data.length))]),
    (ascii "fmt", .number (double.fromChars (Decimal.text fmt))),
    (ascii "__metadata__", .object [(ascii "lmcache_version", .string (ascii metadataVersion))])]

/-- The names of the backend's dtypes. -/
theorem plain_dtypeName {d : Backend.Dtype} {name : String} (h : Backend.dtypeName d = some name) :
    Json.Plain (ascii name) := by
  refine Json.plain_of_ascii ?_
  cases d with
  | other itemsize => cases h
  | _ =>
    cases h
    decide

theorem parses_chunk {t : Tensor} {name : String} (fmt : MemoryFormat)
    (h : Backend.dtypeName t.dtype = some name) :
    Parses double.fromChars (chunkText t name fmt)
      (.object [(ascii "kvcache", chunkValue double t name fmt)]) := by
  have hversion : Parses double.fromChars
      (objectText [(ascii "lmcache_version", quoted (ascii metadataVersion))])
      (.object [(ascii "lmcache_version", .string (ascii metadataVersion))]) := by
    refine Json.parses_object (.cons ⟨rfl, ?_, Json.parses_string ?_⟩ .nil)
      (List.nodup_singleton _)
    · exact Json.plain_of_ascii (t := ascii "lmcache_version") (by decide)
    · exact Json.plain_of_ascii (by decide)
  have hchunk : Parses double.fromChars (objectText (chunkFields t name fmt))
      (chunkValue double t name fmt) := by
    refine Json.parses_object (.cons ⟨rfl, ?_, ?_⟩ (.cons ⟨rfl, ?_, ?_⟩ (.cons ⟨rfl, ?_, ?_⟩
      (.cons ⟨rfl, ?_, ?_⟩ (.cons ⟨rfl, ?_, hversion⟩ .nil))))) ?_
    · exact Json.plain_of_ascii (t := ascii "dtype") (by decide)
    · exact Json.parses_string (plain_dtypeName h)
    · exact Json.plain_of_ascii (t := ascii "shape") (by decide)
    · refine Json.parses_array ?_
      rw [List.forall₂_map_left_iff, List.forall₂_map_right_iff, List.forall₂_same]
      exact fun n _ => Json.parses_number n
    · exact Json.plain_of_ascii (t := ascii "data_offsets") (by decide)
    · exact Json.parses_array
        (.cons (Json.parses_number _) (.cons (Json.parses_number _) .nil))
    · exact Json.plain_of_ascii (t := ascii "fmt") (by decide)
    · exact Json.parses_number fmt
    · exact Json.plain_of_ascii (t := ascii "__metadata__") (by decide)
    · exact (by decide : [ascii "dtype", ascii "shape", ascii "data_offsets", ascii "fmt",
        ascii "__metadata__"].Nodup)
  refine Json.parses_object (.cons ⟨rfl, ?_, hchunk⟩ .nil) (List.nodup_singleton _)
  exact Json.plain_of_ascii (t := ascii "kvcache") (by decide)

/-! ## The tensor -/

theorem toNat_size {n : Nat} (h : n ≤ 2 ^ 53) : (UInt64.ofNat n).toNat = n := by
  rw [UInt64.toNat_ofNat']
  omega

theorem size_le {n : Nat} (h : n ≤ 2 ^ 53) : UInt64.ofNat n ≤ 2 ^ 53 := by
  rw [UInt64.le_iff_toNat_le, toNat_size h]
  exact h

theorem numberValue_ofNat {n : Nat} (h : n ≤ 2 ^ 53) :
    numberValue double (UInt64.ofNat n) = .number (double.fromChars (Decimal.text n)) := by
  rw [numberValue, number, toNat_size h]

/-- What the loader has no use for. -/
theorem tensorItem_other (s : Found) (key : Text) (v : Json.Value N)
    (h : key ≠ ascii "dtype" ∧ key ≠ ascii "shape" ∧ key ≠ ascii "data_offsets") :
    tensorItem double s (key, v) = .ok s := by
  unfold tensorItem
  dsimp only
  rw [if_neg h.1, if_neg h.2.1, if_neg h.2.2]

theorem parseTensor_chunk {t : Tensor} {name : String} (fmt : MemoryFormat)
    (hdims : t.shape.length ≤ kMaxDim) (hshape : ∀ n ∈ t.shape, n ≤ 2 ^ 53)
    (hdata : t.data.length ≤ 2 ^ 53) :
    parseTensor double (ascii "kvcache") (chunkValue double t name fmt) =
      (chunkDtype t name).map (chunkTensor t) := by
  have hvalues : (t.shape.map fun n => (.number (double.fromChars (Decimal.text n)) :
      Json.Value N)) = (t.shape.map UInt64.ofNat).map (numberValue double) := by
    rw [List.map_map]
    exact List.map_congr_left fun n hn => (numberValue_ofNat double (hshape n hn)).symm
  have hoffsets : parseDataOffsets double (.array [.number (double.fromChars (Decimal.text 0)),
      .number (double.fromChars (Decimal.text t.data.length))]) =
      .ok (0, UInt64.ofNat t.data.length) := by
    rw [← numberValue_ofNat double hdata, ← numberValue_ofNat double (Nat.zero_le _)]
    exact parseDataOffsets_values double (by decide) (size_le hdata)
  have hsizes : parseShape double (.array ((t.shape.map UInt64.ofNat).map (numberValue double))) =
      .ok (t.shape.map UInt64.ofNat) := by
    refine parseShape_values double (by rwa [List.length_map]) fun n hn => ?_
    obtain ⟨m, hm, rfl⟩ := List.mem_map.mp hn
    exact size_le (hshape m hm)
  have hzero : (0 : SizeT) ∈ t.shape.map UInt64.ofNat ↔ 0 ∈ t.shape := by
    constructor
    · intro h
      obtain ⟨n, hn, hofNat⟩ := List.mem_map.mp h
      have hn0 : n = 0 := by
        rw [← toNat_size (hshape n hn), hofNat]
        rfl
      rwa [← hn0]
    · exact fun h => List.mem_map.mpr ⟨0, h, rfl⟩
  unfold parseTensor chunkValue chunkDtype
  rw [hvalues]
  cases hname : dtypeNames.lookup (ascii name) with
  | none =>
    simp only [List.foldlM_cons, tensorItem_dtype, parseDtype, hname, Except.map, bind, Except.bind]
  | some dtype =>
    simp only [List.foldlM_cons, List.foldlM_nil, tensorItem_dtype, parseDtype, hname,
      tensorItem_shape, hsizes, tensorItem_dataOffsets, hoffsets,
      tensorItem_other double _ (ascii "fmt") _ (by decide),
      tensorItem_other double _ (ascii "__metadata__") _ (by decide), Except.map, bind,
      Except.bind, pure, Except.pure, foundTensor, hzero]
    split
    · rfl
    · rfl

end Values

/-! ## The file -/

theorem itemsize_dtype {d : Backend.Dtype} {name : String} {dtype : Dtype}
    (h : Backend.dtypeName d = some name) (hname : dtypeNames.lookup (ascii name) = some dtype) :
    getDtypeBytes dtype = UInt64.ofNat d.itemsize := by
  cases d with
  | other itemsize => cases h
  | _ =>
    cases h
    revert hname
    revert dtype
    decide

theorem foldl_mul_ofNat (l : List Nat) (a : SizeT) :
    (l.map UInt64.ofNat).foldl (· * ·) a = a * UInt64.ofNat l.prod := by
  induction l generalizing a with
  | nil => simp
  | cons n l ih => rw [List.map_cons, List.foldl_cons, ih, List.prod_cons, UInt64.ofNat_mul,
      UInt64.mul_assoc]

/-- The tensor of a chunk fills its data. -/
theorem chunkTensor_placed {t : Tensor} {name : String} {dtype : Dtype}
    (h : Backend.dtypeName t.dtype = some name)
    (hname : dtypeNames.lookup (ascii name) = some dtype)
    (hdata : t.data.length ≤ 2 ^ 53) : Placed t.data.length (chunkTensor t dtype) where
  order := UInt64.le_iff_toNat_le.mpr (Nat.zero_le _)
  inside _ := Nat.le_of_eq (toNat_size hdata)
  exact hsize := by
    have hshape : getShapeSize (chunkTensor t dtype) = UInt64.ofNat t.shape.prod := by
      rw [TensorT.size] at hsize
      unfold getShapeSize at hsize ⊢
      split at hsize
      · rename_i hnil
        rw [if_pos hnil, List.map_eq_nil_iff.mp hnil]
        rfl
      · split at hsize
        · exact absurd UInt64.mul_zero hsize
        · rw [if_neg ‹_›, if_neg ‹_›, chunkTensor, foldl_mul_ofNat, UInt64.one_mul]
    rw [TensorT.size, hshape]
    show getDtypeBytes dtype * _ = UInt64.ofNat t.data.length - 0
    rw [itemsize_dtype h hname, t.size, UInt64.ofNat_mul, UInt64.sub_zero, UInt64.mul_comm]

section Files

variable {N : Type} (double : Double N)

/-- What the loader makes of a chunk. -/
def chunkLoaded (t : Tensor) (dtype : Dtype) : SafetensorsT :=
  ⟨⟨[(ascii "kvcache", chunkTensor t dtype)], List.nodup_singleton _⟩, .empty, t.data, 4088, false,
    [], 0⟩

/-- The header of a chunk. -/
theorem parseRoot_chunk {t : Tensor} {name : String} (fmt : MemoryFormat)
    (hdims : t.shape.length ≤ kMaxDim) (hshape : ∀ n ∈ t.shape, n ≤ 2 ^ 53)
    (hdata : t.data.length ≤ 2 ^ 53) :
    parseRoot double 4088 (.object [(ascii "kvcache", chunkValue double t name fmt)]) =
      (chunkDtype t name).map fun dtype =>
        ⟨(chunkLoaded t dtype).tensors, .empty, 4088, []⟩ := by
  have hentry : headerEntry double (.empty, .empty)
      (ascii "kvcache", chunkValue double t name fmt) =
      (chunkDtype t name).map fun dtype => ((chunkLoaded t dtype).tensors, .empty) := by
    unfold headerEntry
    dsimp only
    rw [if_neg (by decide), OrderedDict.count_eq_false (by decide),
      parseTensor_chunk double fmt hdims hshape hdata]
    cases chunkDtype t name with
    | error e => rfl
    | ok dtype => rfl
  unfold parseRoot
  dsimp only
  rw [List.foldlM_cons, hentry]
  cases chunkDtype t name with
  | error e => rfl
  | ok dtype => rfl

/-- A chunk that `_save_gds` wrote is loaded, with its tensor as `"kvcache"` and its data as the
data buffer, and then its offsets are valid; or it is refused for its dtype or for a dimension of
size 0. -/
theorem chunk_loads {json : Json} {t : Tensor} {name : String} {fmt : MemoryFormat} {header : Bytes}
    (hdumps : json.dumps (tensorMeta t name fmt versionMetadata) = chunkText t name fmt)
    (h : Backend.dtypeName t.dtype = some name)
    (hpack : packMetadata json t fmt versionMetadata = some header)
    (hdims : t.shape.length ≤ kMaxDim) (hshape : ∀ n ∈ t.shape, n ≤ 2 ^ 53)
    (hdata : t.data.length ≤ 2 ^ 53) :
    loadFromMemory double (header ++ t.data) =
        (chunkDtype t name).map (fun dtype => (chunkLoaded t dtype, [])) ∧
      ∀ dtype, chunkDtype t name = .ok dtype →
        validateDataOffsets (chunkLoaded t dtype) = .ok () := by
  constructor
  · obtain ⟨name', hname', blanks, rfl, hlen⟩ := packMetadata_some hpack
    obtain rfl : name' = name := Option.some.inj (hname'.symm.trans h)
    rw [hdumps] at hlen ⊢
    have hjson := (parses_chunk double fmt h).whole blanks
    rw [loadFromMemory_file double (by rw [List.length_append, List.length_replicate, hlen])
      (by decide) (by decide) hjson, parseRoot_chunk double fmt hdims hshape hdata]
    cases chunkDtype t name' with
    | error e => rfl
    | ok dtype => rfl
  · intro dtype hdtype
    have hname : dtypeNames.lookup (ascii name) = some dtype := by
      unfold chunkDtype at hdtype
      split at hdtype
      · cases hdtype
      · split at hdtype
        · cases hdtype
        · cases hdtype
          assumption
    have hone : ∀ e ∈ (chunkLoaded t dtype).tensors.entries, e = (ascii "kvcache",
        chunkTensor t dtype) := fun e he => List.mem_singleton.mp he
    refine valid_of_placed (fun e he => ?_) fun _ e he => ?_
    · rw [hone e he]
      exact chunkTensor_placed h hname hdata
    · rw [hone e (List.mem_of_getLast? he)]
      exact toNat_size hdata

end Files

/-- Two half-precision numbers. -/
def halfPair : Tensor := ⟨.half, [2], [1, 2, 3, 4], rfl⟩

theorem chunk_loads_halfPair :
    ∃ json header, packMetadata json halfPair 1 versionMetadata = some header ∧
      loadFromMemory wideDouble (header ++ halfPair.data) =
        .ok (chunkLoaded halfPair .float16, []) := by
  obtain ⟨json, hdumps⟩ : ∃ json : Json, json.dumps (tensorMeta halfPair "F16" 1 versionMetadata) =
      chunkText halfPair "F16" 1 :=
    ⟨_, textJson_dumps (tensorMeta halfPair "F16" 1 versionMetadata) (by decide) (by decide)⟩
  have hdtype : Backend.dtypeName halfPair.dtype = some "F16" := by decide
  cases hpack : packMetadata json halfPair 1 versionMetadata with
  | none =>
    have hlong := (Backend.packMetadata_eq_none hdtype).mp hpack
    rw [hdumps] at hlong
    exact absurd hlong (by decide +kernel)
  | some header =>
    have hload := (chunk_loads wideDouble hdumps hdtype hpack (by decide) (by decide)
      (by decide)).1
    exact ⟨json, header, hpack, hload⟩

end Fgds.Safetensors
