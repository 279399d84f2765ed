import Fgds.Backend.Metadata
import Fgds.Lib.CInt
import Fgds.Lib.Decimal
import Fgds.Safetensors.Json

/-!
# Loading a safetensors file

A file is eight bytes with the size of the header, the header, which is JSON text, and the data
buffer. Errors are the texts that are appended to `err`.
-/

namespace Fgds.Safetensors

open Backend (Bytes unpackQ)
open Lib Lib.CInt

/-! ## Types -/

/-- `dtype`. -/
inductive Dtype where
  | bool
  | uint8
  | int8
  | int16
  | uint16
  | float16
  | bfloat16
  | int32
  | uint32
  | float32
  | float64
  | int64
  | uint64
  deriving DecidableEq, Repr

/-- `ordered_dict`: the keys in the order in which they were inserted. -/
@[ext]
structure OrderedDict (α : Type) where
  entries : List (Text × α)
  distinct : (entries.map Prod.fst).Nodup

namespace OrderedDict

variable {α : Type}

def empty : OrderedDict α := ⟨[], List.nodup_nil⟩

def keys (d : OrderedDict α) : List Text := d.entries.map Prod.fst

def count (d : OrderedDict α) (key : Text) : Bool := d.keys.contains key

theorem map_overwrite (key : Text) (value : α) (entries : List (Text × α)) :
    (entries.map fun e => if e.1 = key then (key, value) else e).map Prod.fst =
      entries.map Prod.fst := by
  rw [List.map_map]
  refine List.map_congr_left fun e _ => ?_
  by_cases h : e.1 = key
  · rw [Function.comp_apply, if_pos h, h]
  · rw [Function.comp_apply, if_neg h]

theorem nodup_snoc {key : Text} (value : α) {entries : List (Text × α)}
    (h : (entries.map Prod.fst).Nodup) (hnew : key ∉ entries.map Prod.fst) :
    ((entries ++ [(key, value)]).map Prod.fst).Nodup := by
  rw [List.map_append, List.map_singleton]
  refine List.nodup_append.mpr ⟨h, List.nodup_singleton _, ?_⟩
  intro a ha b hb hab
  rw [List.mem_singleton] at hb
  rw [hab, hb] at ha
  exact hnew ha

/-- The value of an existing key is overwritten, a new key is pushed back. -/
def insert (d : OrderedDict α) (key : Text) (value : α) : OrderedDict α :=
  if h : key ∈ d.entries.map Prod.fst then
    ⟨d.entries.map fun e => if e.1 = key then (key, value) else e,
      (map_overwrite key value d.entries).symm ▸ d.distinct⟩
  else ⟨d.entries ++ [(key, value)], nodup_snoc value d.distinct h⟩

theorem insert_new {d : OrderedDict α} {key : Text} (h : key ∉ d.keys) (value : α) :
    (d.insert key value).entries = d.entries ++ [(key, value)] := by
  unfold insert
  rw [keys] at h
  rw [dif_neg h]

theorem count_eq_false {d : OrderedDict α} {key : Text} (h : key ∉ d.keys) :
    d.count key = false := by
  rw [count, ← Bool.not_eq_true, List.contains_iff_mem]
  exact h

/-- A dictionary with these entries. -/
def ofEntries (entries : List (Text × α)) : OrderedDict α :=
  entries.foldl (fun d e => d.insert e.1 e.2) empty

theorem ofEntries_snoc (entries : List (Text × α)) (e : Text × α) :
    ofEntries (entries ++ [e]) = (ofEntries entries).insert e.1 e.2 := List.foldl_append ..

theorem entries_ofEntries {entries : List (Text × α)} (h : (entries.map Prod.fst).Nodup) :
    (ofEntries entries).entries = entries := by
  induction entries using List.reverseRecOn with
  | nil => rfl
  | append_singleton entries e ih =>
    rw [List.map_append, List.map_singleton] at h
    obtain ⟨hnodup, _, hnew⟩ := List.nodup_append.mp h
    have hentries := ih hnodup
    rw [ofEntries_snoc, insert_new, hentries]
    rw [keys, hentries]
    exact fun he => hnew e.1 he e.1 (List.mem_singleton_self _) rfl

theorem count_ofEntries {done rest : List (Text × α)} {e : Text × α}
    (h : ((done ++ e :: rest).map Prod.fst).Nodup) : (ofEntries done).count e.1 = false := by
  rw [List.map_append, List.map_cons] at h
  obtain ⟨hdone, _, hnew⟩ := List.nodup_append.mp h
  refine count_eq_false ?_
  rw [keys, entries_ofEntries hdone]
  exact fun he => hnew e.1 he e.1 List.mem_cons_self rfl

theorem ofEntries_entries (d : OrderedDict α) : ofEntries d.entries = d :=
  OrderedDict.ext (entries_ofEntries d.distinct)

end OrderedDict

/-- `size_t`. -/
abbrev SizeT := UInt64

/-- `tensor_t`. -/
structure TensorT where
  dtype : Dtype
  shape : List SizeT
  dataOffsets : SizeT × SizeT
  deriving DecidableEq, Repr

/-- `safetensors_t`; `databuffer` are the bytes that can be read at `databuffer_addr`, which may be
fewer than `databuffer_size` says. -/
structure SafetensorsT where
  tensors : OrderedDict TensorT
  metadata : OrderedDict Text
  storage : Bytes
  headerSize : Nat
  mmaped : Bool
  databuffer : Bytes
  databufferSize : Nat

/-- The data buffer: what can be read at `databuffer_addr`, or the copy in `storage`. -/
def SafetensorsT.buffer (st : SafetensorsT) : Bytes :=
  if st.mmaped then st.databuffer else st.storage

/-- The size that the data buffer is said to have. -/
def SafetensorsT.bufferSize (st : SafetensorsT) : Nat :=
  if st.mmaped then st.databufferSize else st.storage.length

/-- A C `double` as far as the loader uses it: `from_chars` and the conversion to `size_t`. Whole
numbers up to `2 ^ 53` have a `double` of their own. -/
structure Double (N : Type) where
  fromChars : Text → N
  toSize : N → SizeT
  exact : ∀ n : SizeT, n ≤ 2 ^ 53 → toSize (fromChars (Decimal.text n.toNat)) = n

/-- A `double` that holds every `size_t`. -/
def wideDouble : Double Nat where
  fromChars := Decimal.value
  toSize := UInt64.ofNat
  exact n _ := by rw [Decimal.value_text, UInt64.ofNat_toNat]

/-! ## The header -/

def kMaxDim : Nat := 8

/-- Max header(JSON) size. -/
def kMaxJSONSize : Nat := 1024 * 1024 * 100

section Parse

variable {N : Type}

/-- `type_name`. -/
def typeName : Json.Value N → Text
  | .array _ => ascii "array"
  | .object _ => ascii "object"
  | .string _ => ascii "string"
  | .null => ascii "null"
  | .boolean _ => ascii "boolean"
  | .number _ => ascii "number"
  | .unknown => ascii "[[invalid]]"

/-- `errstr`; the parser stops in neither of the last two ways. -/
def errstr : Json.Error → Text
  | .undefined => ascii "undefined"
  | .invalidToken => ascii "invalid token"
  | .corruptedJson => ascii "input is corrupted"
  | .duplicatedKey => ascii "duplicated key found"
  | .overrun | .unfinished => ascii "unknown error"

/-- One round of `parse_metadata`. -/
def metadataEntry (dst : OrderedDict Text) (e : Text × Json.Value N) :
    Except Text (OrderedDict Text) :=
  match e.2 with
  | .string so =>
    if dst.count e.1 then
      .error (ascii "Duplicate key `" ++ e.1 ++ ascii "` found in __metadata__.\n")
    else .ok (dst.insert e.1 so)
  | _ => .error (ascii "`" ++ e.1 ++ ascii "` must be string value.\n")

def parseMetadata (v : Json.Value N) (dst : OrderedDict Text) : Except Text (OrderedDict Text) :=
  match v with
  | .object po => po.foldlM metadataEntry dst
  | _ => .error (ascii "`__metadata__` value must be JSON object.\n")

/-- The strings that `parse_dtype` compares with. -/
def dtypeNames : List (Text × Dtype) :=
  [(ascii "BOOL", .bool), (ascii "U8", .uint8), (ascii "I8", .int8), (ascii "U16", .uint16),
    (ascii "I16", .int16), (ascii "U32", .uint32), (ascii "I32", .int32), (ascii "U64", .uint64),
    (ascii "I64", .int64), (ascii "F16", .float16), (ascii "BF16", .bfloat16),
    (ascii "F32", .float32), (ascii "F64", .float64)]

def parseDtype (v : Json.Value N) : Except Text Dtype :=
  match v with
  | .string so =>
    match dtypeNames.lookup so with
    | some dtype => .ok dtype
    | none => .error (ascii "Unknown `dtype` string: " ++ so ++ ascii ".\n")
  | v => .error (ascii "`dtype` item should be string type but got " ++ typeName v ++ ascii ".\n")

variable (double : Double N)

/-- One round of `parse_shape`. -/
def shapeItem (dst : List SizeT) (v : Json.Value N) : Except Text (List SizeT) :=
  match v with
  | .number pn =>
    if dst.length ≥ kMaxDim then
      .error (ascii "`shape` length must be less than " ++ Decimal.text kMaxDim ++
        ascii " but got " ++ Decimal.text dst.length ++ ascii ".\n")
    else .ok (dst ++ [double.toSize pn])
  | v => .error (ascii "Array item in `shape` must be number type, but got " ++ typeName v ++
      ascii ".\n")

def parseShape (v : Json.Value N) : Except Text (List SizeT) :=
  match v with
  | .array pa => pa.foldlM (shapeItem double) []
  | v => .error (ascii "`shape` value must be JSON array, but got " ++ typeName v ++ ascii ".\n")

/-- One round of `parse_data_offsets`; `dst` are the first `cnt` offsets. -/
def dataOffset (dst : List SizeT) (v : Json.Value N) : Except Text (List SizeT) :=
  match v with
  | .number pn =>
    if dst.length ≥ 2 then .error (ascii "`data_offsets` length must be 2.\n")
    else .ok (dst ++ [double.toSize pn])
  | v => .error (ascii "Array item in `data_offsets` must be number type, but got " ++
      typeName v ++ ascii ".\n")

def parseDataOffsets (v : Json.Value N) : Except Text (SizeT × SizeT) :=
  match v with
  | .array pa => do
    match ← pa.foldlM (dataOffset double) [] with
    | [start, stop] => return (start, stop)
    | _ => .error (ascii "`data_offsets` length must be 2.\n")
  | v => .error (ascii "`data_offsets` value must be JSON array, but got " ++ typeName v ++
      ascii ".\n")

/-- The items that `parse_tensor` has found. -/
structure Found where
  dtype : Option Dtype
  shape : Option (List SizeT)
  dataOffsets : Option (SizeT × SizeT)

/-- One round of `parse_tensor`. -/
def tensorItem (s : Found) (e : Text × Json.Value N) : Except Text Found :=
  if e.1 = ascii "dtype" then (parseDtype e.2).map fun dtype => { s with dtype := some dtype }
  else if e.1 = ascii "shape" then
    (parseShape double e.2).map fun shape => { s with shape := some shape }
  else if e.1 = ascii "data_offsets" then
    (parseDataOffsets double e.2).map fun offsets => { s with dataOffsets := some offsets }
  else .ok s -- Unknown key. Report error?

/-- The error for a tensor without data that has `data_offsets`. -/
def emptyTensor (name : Text) : Text :=
  ascii "`" ++ name ++ ascii "` is empty tensors(tensors with 1 dimension being 0), and no " ++
    ascii "data in databuffer, but `data_offsets` item is provided.\n"

/-- The checks behind the loop of `parse_tensor`. -/
def foundTensor (name : Text) (s : Found) : Except Text TensorT :=
  match s.dtype, s.shape, s.dataOffsets with
  | none, _, _ => .error (ascii "`" ++ name ++ ascii "` does not have `dtype` item.\n")
  | some _, none, _ => .error (ascii "`" ++ name ++ ascii "` does not have `shape` item.\n")
  | some dtype, some shape, none =>
    if 0 ∈ shape then .ok ⟨dtype, shape, (0, 0)⟩
    else .error (ascii "`" ++ name ++ ascii "` does not have `data_offsets` item.\n")
  | some dtype, some shape, some offsets =>
    if 0 ∈ shape then .error (emptyTensor name) else .ok ⟨dtype, shape, offsets⟩

def parseTensor (name : Text) (v : Json.Value N) : Except Text TensorT :=
  match v with
  | .object po => po.foldlM (tensorItem double) ⟨none, none, none⟩ >>= foundTensor name
  | _ => .error (ascii "`" ++ name ++ ascii "` value must be JSON object.\n")

/-- One round over the keys of the header. -/
def headerEntry (s : OrderedDict TensorT × OrderedDict Text) (e : Text × Json.Value N) :
    Except Text (OrderedDict TensorT × OrderedDict Text) :=
  if e.1 = ascii "__metadata__" then (parseMetadata e.2 s.2).map fun metadata => (s.1, metadata)
  else if s.1.count e.1 then .error (ascii "Duplicate key `" ++ e.1 ++ ascii "` found.\n")
  else (parseTensor double e.1 e.2).map fun tensor => (s.1.insert e.1 tensor, s.2)

/-- What `parse_safetensors_header` stores; `err` is the text that it appends on success. -/
structure Header where
  tensors : OrderedDict TensorT
  metadata : OrderedDict Text
  headerSize : Nat
  err : Text

/-- The tensors and the metadata of the JSON value. -/
def parseRoot (headerSize : Nat) (v : Json.Value N) : Except Text Header :=
  match v with
  | .object po =>
    (po.foldlM (headerEntry double) (.empty, .empty)).map fun s => ⟨s.1, s.2, headerSize, []⟩
  | _ => .ok ⟨.empty, .empty, headerSize, ascii "JSON root elements must be object(dict)\n"⟩

/-- The header of `headerSize` bytes, behind its size. -/
def parseJson (headerSize : Nat) (addr : Bytes) : Except Text Header :=
  match Json.parse double.fromChars ((addr.drop 8).take headerSize) with
  | .error e => .error (ascii "JSON parse error: " ++ errstr e ++ ascii "\n")
  | .ok (v, _) => parseRoot double headerSize v

/-- `parse_safetensors_header` of the bytes at `addr`, which are said to be `nbytes`. -/
def parseSafetensorsHeader (addr : Bytes) (nbytes : Nat) : Except Text Header :=
  let headerSize := unpackQ (addr.take 8)
  if nbytes < 16 then .error (ascii "Size is too short.\n")
  else if headerSize < 4 then .error (ascii "Header size is too short.\n")
  else if u64 (8 + headerSize) > nbytes then
    .error (ascii "Header size " ++ Decimal.text headerSize ++ ascii " + 8 exceeds input size " ++
      Decimal.text nbytes ++ ascii " .\n")
  else if headerSize > kMaxJSONSize then
    .error (ascii "Header JSON size exceeds the limit(" ++ Decimal.text kMaxJSONSize ++
      ascii ").\n")
  else parseJson double headerSize addr

/-- `load_from_memory`, with the text of `err` on success. -/
def loadFromMemory (addr : Bytes) : Except Text (SafetensorsT × Text) :=
  if addr.length < 16 then .error (ascii "Size is too short.\n")
  else
    (parseSafetensorsHeader double addr addr.length).map fun header =>
      (⟨header.tensors, header.metadata, addr.drop (8 + header.headerSize), header.headerSize,
        false, [], 0⟩, header.err)

/-- `mmap_from_memory` of `nbytes` at `addr`, of which these bytes can be read. -/
def mmapFromMemory (addr : Bytes) (nbytes : Nat) : Except Text (SafetensorsT × Text) :=
  if nbytes < 16 then .error []
  else
    (parseSafetensorsHeader double addr nbytes).map fun header =>
      (⟨header.tensors, header.metadata, [], header.headerSize, true,
        addr.drop (8 + header.headerSize), nbytes - (8 + header.headerSize)⟩, header.err)

/-- The bytes of a file that can be read through a mapping of its first `length` bytes. -/
def mapped (length : Nat) (file : Bytes) : Bytes := file.take ((length + 4095) / 4096 * 4096)

/-- The length of the mapping: with `is_xds`, that of the header and its size. -/
def mapLength (isXds : Bool) (file : Bytes) : Nat :=
  if isXds then u64 (unpackQ (file.take 8) + 8) else file.length

/-- `mmap_from_file` of a file that can be opened; `strerror` is the text for `errno`, and `mmap`
says which lengths can be mapped. The size passed on is always that of the file. -/
def mmapFromFile (filename strerror : Text) (mmap : Nat → Bool) (isXds : Bool) (file : Bytes) :
    Except Text (SafetensorsT × Text) :=
  if file.length < 8 then
    .error (ascii "failed to read header size from " ++ filename ++ ascii ":" ++ strerror ++
      ascii "\n")
  else if mapLength isXds file = 0 ∨ mmap (mapLength isXds file) = false then .error []
  else mmapFromMemory double (mapped (mapLength isXds file) file) file.length

end Parse

/-! ## Accepted files -/

section Accepted

variable {N : Type} {double : Double N}

theorem parseRoot_headerSize {headerSize : Nat} {v : Json.Value N} {header : Header}
    (h : parseRoot double headerSize v = .ok header) : header.headerSize = headerSize := by
  unfold parseRoot at h
  split at h
  · rename_i po
    cases hs : po.foldlM (headerEntry double) (.empty, .empty) with
    | error e =>
      rw [hs] at h
      cases h
    | ok s =>
      rw [hs] at h
      cases h
      rfl
  · cases h
    rfl

theorem u64_header {headerSize : Nat} (h : headerSize ≤ kMaxJSONSize) :
    u64 (8 + headerSize) = 8 + headerSize := by
  rw [kMaxJSONSize] at h
  exact u64_eq (by push_cast; rfl) (by omega)

/-- A header that is neither too short nor too long and lies inside the file is read. -/
theorem parseSafetensorsHeader_eq {addr : Bytes} {nbytes headerSize : Nat}
    (hsize : unpackQ (addr.take 8) = headerSize) (hnbytes : 16 ≤ nbytes) (hshort : 4 ≤ headerSize)
    (hfits : 8 + headerSize ≤ nbytes) (hlimit : headerSize ≤ kMaxJSONSize) :
    parseSafetensorsHeader double addr nbytes = parseJson double headerSize addr := by
  unfold parseSafetensorsHeader
  dsimp only
  rw [hsize, if_neg (by omega), if_neg (by omega), if_neg (by rw [u64_header hlimit]; omega),
    if_neg (by omega)]

theorem parseSafetensorsHeader_ok_iff {addr : Bytes} {nbytes : Nat} {header : Header} :
    parseSafetensorsHeader double addr nbytes = .ok header ↔
      16 ≤ nbytes ∧ 4 ≤ unpackQ (addr.take 8) ∧ 8 + unpackQ (addr.take 8) ≤ nbytes ∧
        unpackQ (addr.take 8) ≤ kMaxJSONSize ∧
        parseJson double (unpackQ (addr.take 8)) addr = .ok header := by
  constructor
  · intro h
    unfold parseSafetensorsHeader at h
    dsimp only at h
    split at h
    · cases h
    · split at h
      · cases h
      · split at h
        · cases h
        · split at h
          · cases h
          · rename_i hnbytes hsize hfits hlimit
            rw [u64_header (Nat.le_of_not_lt hlimit)] at hfits
            exact ⟨by omega, by omega, by omega, by omega, h⟩
  · rintro ⟨hnbytes, hsize, hfits, hlimit, h⟩
    rw [parseSafetensorsHeader_eq rfl hnbytes hsize hfits hlimit, h]

theorem parseJson_headerSize {headerSize : Nat} {addr : Bytes} {header : Header}
    (h : parseJson double headerSize addr = .ok header) : header.headerSize = headerSize := by
  unfold parseJson at h
  split at h
  · cases h
  · exact parseRoot_headerSize h

theorem mapLength_covers {file : Bytes} (hfile : 0 < file.length) (isXds : Bool)
    (h : unpackQ (file.take 8) ≤ kMaxJSONSize) :
    0 < mapLength isXds file ∧ min file.length (unpackQ (file.take 8) + 8) ≤
      mapLength isXds file := by
  cases isXds with
  | false => exact ⟨hfile, Nat.min_le_left _ _⟩
  | true =>
    have hexact : mapLength true file = 8 + unpackQ (file.take 8) := by
      rw [mapLength, if_pos rfl, Int.add_comm]
      exact u64_header h
    rw [hexact]
    omega

/-- The first pages of a file are enough. -/
theorem parseSafetensorsHeader_mapped (file : Bytes) (nbytes : Nat) {length : Nat}
    (hpos : 0 < length) (hlength : unpackQ (file.take 8) ≤ kMaxJSONSize →
      min file.length (unpackQ (file.take 8) + 8) ≤ length) :
    parseSafetensorsHeader double (mapped length file) nbytes =
      parseSafetensorsHeader double file nbytes := by
  obtain ⟨k, hk, hlen, hk8⟩ :
      ∃ k, (length + 4095) / 4096 * 4096 = k ∧ length ≤ k ∧ 8 ≤ k := ⟨_, rfl, by omega⟩
  have hfirst : (mapped length file).take 8 = file.take 8 := by
    rw [mapped, hk, List.take_take, Nat.min_eq_left hk8]
  unfold parseSafetensorsHeader
  dsimp only
  rw [hfirst]
  -- the text is only looked at if its size is below the limit
  by_cases hlimit : unpackQ (file.take 8) > kMaxJSONSize
  · rw [if_pos hlimit, if_pos hlimit]
  · have htext : ((mapped length file).drop 8).take (unpackQ (file.take 8)) =
        (file.drop 8).take (unpackQ (file.take 8)) := by
      have hread := hlength (Nat.le_of_not_lt hlimit)
      rw [mapped, hk, List.drop_take, List.take_take]
      rw [List.take_eq_take_iff, List.length_drop]
      omega
    rw [parseJson, parseJson, htext]

/-- What was loaded, with its data buffer in a mapping of which these bytes can be read. -/
def SafetensorsT.asMapped (st : SafetensorsT) (addr : Bytes) : SafetensorsT :=
  { st with
    storage := []
    mmaped := true
    databuffer := addr.drop (8 + st.headerSize)
    databufferSize := st.storage.length }

/-- Loading from a mapping of which enough can be read. -/
theorem mmapFromMemory_eq {file addr : Bytes} (h : 16 ≤ file.length)
    (hparse : parseSafetensorsHeader double addr file.length =
      parseSafetensorsHeader double file file.length) :
    mmapFromMemory double addr file.length =
      (loadFromMemory double file).map fun r => (r.1.asMapped addr, r.2) := by
  rw [mmapFromMemory, loadFromMemory, if_neg (by omega), if_neg (by omega), hparse]
  cases parseSafetensorsHeader double file file.length with
  | error e => rfl
  | ok header =>
    show Except.ok _ = Except.ok _
    simp only [SafetensorsT.asMapped, List.length_drop]

theorem loadFromMemory_storage {file : Bytes} {st : SafetensorsT} {err : Text}
    (h : loadFromMemory double file = .ok (st, err)) :
    st.storage = file.drop (8 + st.headerSize) := by
  rw [loadFromMemory] at h
  split at h
  · cases h
  · cases hparse : parseSafetensorsHeader double file file.length with
    | error e =>
      rw [hparse] at h
      cases h
    | ok header =>
      rw [hparse] at h
      cases h
      rfl

/-- Without `is_xds` the mapping is the file. -/
theorem mapped_whole (file : Bytes) : mapped (mapLength false file) file = file := by
  rw [mapLength, if_neg Bool.false_ne_true, mapped]
  exact List.take_of_length_le (by omega)

/-- A file of at least 16 bytes that can be mapped: `mmap_from_file` gives what a copy of the file
gives, with the same texts, and fails on the same files. The data can be read in the mapping, or,
with `is_xds`, as much of it as lies in the pages of the header. Both refuse shorter files. -/
theorem mmapFromFile_agrees (double : Double N) (filename strerror : Text) (mmap : Nat → Bool)
    (isXds : Bool) (file : Bytes)
    (hmap : 0 < mapLength isXds file ∧ mmap (mapLength isXds file) = true) :
    (16 ≤ file.length →
      mmapFromFile double filename strerror mmap isXds file =
          (loadFromMemory double file).map fun r =>
            (r.1.asMapped (mapped (mapLength isXds file) file), r.2)) ∧
    (∀ st err, loadFromMemory double file = .ok (st, err) →
      (st.asMapped (mapped (mapLength isXds file) file)).databuffer =
        if isXds then
          st.storage.take ((mapLength true file + 4095) / 4096 * 4096 - (8 + st.headerSize))
        else st.storage) ∧
    (file.length < 16 → loadFromMemory double file = .error (ascii "Size is too short.\n") ∧
      ∃ e, mmapFromFile double filename strerror mmap isXds file = .error e) := by
  have hgranted : ¬ (mapLength isXds file = 0 ∨ mmap (mapLength isXds file) = false) := by
    rw [hmap.2]
    simpa using Nat.ne_of_gt hmap.1
  refine ⟨fun hlong => ?_, fun st err hload => ?_, fun hshort => ⟨if_pos hshort, ?_⟩⟩
  · rw [mmapFromFile, if_neg (by omega), if_neg hgranted]
    exact mmapFromMemory_eq hlong (parseSafetensorsHeader_mapped file file.length hmap.1
      fun hlimit => (mapLength_covers (by omega) isXds hlimit).2)
  · have hst := loadFromMemory_storage hload
    cases isXds with
    | false => rw [mapped_whole, if_neg Bool.false_ne_true, hst, SafetensorsT.asMapped]
    | true => rw [if_pos rfl, hst, SafetensorsT.asMapped, mapped, List.drop_take]
  · by_cases hread : file.length < 8
    · exact ⟨_, if_pos hread⟩
    · rw [mmapFromFile, if_neg hread, if_neg hgranted]
      exact ⟨[], if_pos hshort⟩

/-- A file with one tensor that goes over the first page. -/
def overPage : Bytes :=
  Backend.packQ 72 ++
    ascii "\x7b\"a\": \x7b\"dtype\": \"U8\", \"shape\": [5000], " ++
    ascii "\"data_offsets\": [0, 5000]\x7d\x7d      " ++
    List.replicate 5000 7

theorem mmapFromFile_agrees_overPage :
    ∃ st err, loadFromMemory wideDouble overPage = .ok (st, err) ∧ st.storage.length = 5000 ∧
      mmapFromFile wideDouble (ascii "f") [] (fun _ => true) true overPage =
        .ok (st.asMapped (mapped (mapLength true overPage) overPage), err) ∧
      (st.asMapped (mapped (mapLength true overPage) overPage)).databuffer =
        st.storage.take 4016 := by
  have hlength : mapLength true overPage = 80 := by decide +kernel
  have hloaded : ((loadFromMemory wideDouble overPage).toOption.any fun r =>
      r.1.storage.length == 5000 && r.1.headerSize == 72) = true := by decide +kernel
  obtain ⟨hsame, hdata, _⟩ := mmapFromFile_agrees wideDouble (ascii "f") [] (fun _ => true) true
    overPage ⟨hlength ▸ by decide, rfl⟩
  have hsame := hsame (by decide +kernel)
  cases hload : loadFromMemory wideDouble overPage with
  | error e =>
    rw [hload] at hloaded
    cases hloaded
  | ok r =>
    obtain ⟨st, err⟩ := r
    rw [hload] at hloaded hsame
    have hdata := hdata st err hload
    obtain ⟨hstorage, hheader⟩ : st.storage.length = 5000 ∧ st.headerSize = 72 := by
      simpa [Except.toOption] using hloaded
    rw [if_pos rfl, hlength, hheader] at hdata
    exact ⟨st, err, rfl, hstorage, hsame, hlength ▸ hdata⟩

end Accepted

end Fgds.Safetensors
