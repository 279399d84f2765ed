import Fgds.Safetensors.Header
import Fgds.Safetensors.JsonText

/-!
# Checking and saving tensors

`validate_data_offsets`, which every loader calls before it reads a tensor, and `save_to_memory`,
which calls it before it writes.

* `validateDataOffsets_ok_iff`: what is checked, tensor by tensor.
-/

namespace Fgds.Safetensors

open Backend (Bytes packQ)
open Lib

/-! ## Sizes -/

/-- `get_dtype_bytes`. -/
def getDtypeBytes : Dtype → SizeT
  | .bool | .uint8 | .int8 => 1
  | .uint16 | .int16 | .float16 | .bfloat16 => 2
  | .int32 | .uint32 | .float32 => 4
  | .float64 | .int64 | .uint64 => 8

/-- `get_dtype_str`. -/
def getDtypeStr : Dtype → Text
  | .bool => ascii "BOOL"
  | .uint8 => ascii "U8"
  | .int8 => ascii "I8"
  | .uint16 => ascii "U16"
  | .int16 => ascii "I16"
  | .int32 => ascii "I32"
  | .uint32 => ascii "U32"
  | .float16 => ascii "F16"
  | .bfloat16 => ascii "BF16"
  | .float32 => ascii "F32"
  | .float64 => ascii "F64"
  | .int64 => ascii "I64"
  | .uint64 => ascii "U64"

/-- `get_shape_size`. A shape with `kMaxDim` dimensions, which `parse_shape` accepts, has size 0. -/
def getShapeSize (t : TensorT) : SizeT :=
  if t.shape = [] then 1
  else if t.shape.length ≥ kMaxDim then 0
  else t.shape.foldl (· * ·) 1

/-- The `tensor_size` of `validate_data_offsets`. -/
def TensorT.size (t : TensorT) : SizeT := getDtypeBytes t.dtype * getShapeSize t

/-! ## The offsets -/

/-- The variables of `validate_data_offsets`. -/
structure Checked where
  valid : Bool
  ss : Text
  ntensors : Nat

/-- A check that fails writes its text. -/
def Checked.check (s : Checked) (ok : Bool) (text : Text) : Checked :=
  if ok then s else { s with valid := false, ss := s.ss ++ text }

/-- A size or an offset as a stream prints it. -/
def number (n : SizeT) : Text := Decimal.text n.toNat

/-- One round of `validate_data_offsets` over a data buffer of `size` bytes, with `total` tensors
in the file. -/
def checkTensor (size total : Nat) (s : Checked) (e : Text × TensorT) : Checked :=
  let start := e.2.dataOffsets.1
  let stop := e.2.dataOffsets.2
  let s := s.check (start ≤ stop) (e.1 ++ ascii ".data_offsets.BEGIN " ++ number start ++
    ascii " must be less than or equal to data_offsets.END " ++ number stop ++ ascii "\n")
  if e.2.size = 0 then s
  else
    let s := s.check (start.toNat ≤ size) (ascii "Tensor `" ++ e.1 ++
      ascii "`.data_offset.BEGIN " ++ number start ++ ascii " exceeds databuffer size " ++
      Decimal.text size ++ ascii ".\n")
    let s := s.check (stop.toNat ≤ size) (ascii "Tensor `" ++ e.1 ++ ascii "`.data_offset.END " ++
      number stop ++ ascii " exceeds databuffer size " ++ Decimal.text size ++ ascii ".\n")
    let s := s.check (e.2.size = stop - start) (ascii "Data size mismatch. The size in Tensor `" ++
      e.1 ++ ascii "` is " ++ number e.2.size ++ ascii ", but the size from data_offsets is " ++
      number (stop - start) ++ ascii "\n")
    let s := { s with ntensors := s.ntensors + 1 }
    if s.ntensors = total then
      s.check (stop.toNat = size) (ascii "The last tensor's data_offset.END(" ++ number stop ++
        ascii ") must be equal to databufer size " ++ Decimal.text size ++ ascii ".\n")
    else s

/-- `validate_data_offsets`; the error is what `err` is set to. -/
def validateDataOffsets (st : SafetensorsT) : Except Text Unit :=
  let s := st.tensors.entries.foldl
    (checkTensor st.bufferSize st.tensors.entries.length) ⟨true, [], 0⟩
  if s.valid then .ok () else .error s.ss

/-- A tensor that lies in a buffer of `size` bytes and has as many bytes as its offsets say. Of a
tensor of size 0 only the order of its offsets is checked. -/
structure Placed (size : Nat) (t : TensorT) : Prop where
  order : t.dataOffsets.1 ≤ t.dataOffsets.2
  inside : t.size ≠ 0 → t.dataOffsets.2.toNat ≤ size
  exact : t.size ≠ 0 → t.size = t.dataOffsets.2 - t.dataOffsets.1

@[simp]
theorem Checked.check_valid (s : Checked) (ok : Bool) (text : Text) :
    (s.check ok text).valid = (s.valid && ok) := by
  cases ok with
  | true => rw [Bool.and_true]; rfl
  | false => rw [Bool.and_false]; rfl

@[simp]
theorem Checked.check_ntensors (s : Checked) (ok : Bool) (text : Text) :
    (s.check ok text).ntensors = s.ntensors := by
  cases ok with
  | true => rfl
  | false => rfl

theorem checkTensor_ntensors (size total : Nat) (s : Checked) (e : Text × TensorT) :
    (checkTensor size total s e).ntensors = s.ntensors + if e.2.size = 0 then 0 else 1 := by
  unfold checkTensor
  dsimp only
  split
  · simp
  · split
    · simp
    · simp

/-- One round: the tensor is placed, and the last one of all ends where the buffer ends. -/
theorem checkTensor_valid (size total : Nat) (s : Checked) (e : Text × TensorT) :
    (checkTensor size total s e).valid = true ↔ s.valid = true ∧ Placed size e.2 ∧
      (e.2.size ≠ 0 → s.ntensors + 1 = total → e.2.dataOffsets.2.toNat = size) := by
  unfold checkTensor
  dsimp only
  by_cases hsize : e.2.size = 0
  · rw [if_pos hsize, Checked.check_valid, Bool.and_eq_true, decide_eq_true_eq]
    refine and_congr_right fun _ => ⟨fun h => ⟨⟨h, ?_, ?_⟩, ?_⟩, fun h => h.1.order⟩
    · exact fun h => absurd hsize h
    · exact fun h => absurd hsize h
    · exact fun h => absurd hsize h
  · rw [if_neg hsize]
    simp only [Checked.check_ntensors]
    have hplaced : Placed size e.2 ↔ e.2.dataOffsets.1 ≤ e.2.dataOffsets.2 ∧
        e.2.dataOffsets.2.toNat ≤ size ∧ e.2.size = e.2.dataOffsets.2 - e.2.dataOffsets.1 :=
      ⟨fun h => ⟨h.order, h.inside hsize, h.exact hsize⟩,
        fun h => ⟨h.1, fun _ => h.2.1, fun _ => h.2.2⟩⟩
    -- the offset of the start needs no check of its own once the order is right
    have hstart : e.2.dataOffsets.1 ≤ e.2.dataOffsets.2 → e.2.dataOffsets.2.toNat ≤ size →
        e.2.dataOffsets.1.toNat ≤ size := fun h => Nat.le_trans (UInt64.le_iff_toNat_le.mp h)
    by_cases hlast : s.ntensors + 1 = total
    · simp only [if_pos hlast, Checked.check_valid, Bool.and_eq_true, decide_eq_true_eq, hplaced]
      tauto
    · simp only [if_neg hlast, Checked.check_valid, Bool.and_eq_true, decide_eq_true_eq, hplaced]
      tauto

theorem foldl_checkTensor_valid (size total : Nat) (es : List (Text × TensorT)) (s : Checked)
    (hs : s.ntensors + es.length ≤ total) :
    (es.foldl (checkTensor size total) s).valid = true ↔ s.valid = true ∧
      (∀ e ∈ es, Placed size e.2) ∧
      (s.ntensors + es.length = total → (∀ e ∈ es, e.2.size ≠ 0) →
        ∀ e ∈ es.getLast?, e.2.dataOffsets.2.toNat = size) := by
  induction es generalizing s with
  | nil => simp
  | cons e es ih =>
    rw [List.length_cons] at hs
    have hcount := checkTensor_ntensors size total s e
    have hle : (checkTensor size total s e).ntensors ≤ s.ntensors + 1 := by
      rw [hcount]
      split
      · omega
      · omega
    rw [List.foldl_cons, ih _ (by omega), checkTensor_valid, List.forall_mem_cons,
      List.forall_mem_cons, and_assoc, and_assoc, and_assoc, hcount, List.length_cons]
    refine and_congr_right fun _ => and_congr_right fun _ => ?_
    rw [and_left_comm]
    refine and_congr_right fun _ => ?_
    cases es with
    | nil =>
      simp only [List.getLast?_nil, List.getLast?_singleton, Option.mem_def, Option.some.injEq,
        List.length_nil]
      refine ⟨fun h htotal hsize e' he => ?_, fun h => ⟨fun hsize htotal => ?_, nofun⟩⟩
      · subst he
        exact h.1 hsize.1 htotal
      · exact h htotal ⟨hsize, nofun⟩ e rfl
    | cons e' es =>
      -- the counter reaches the number of all tensors only at the last one, if it skipped none
      rw [List.getLast?_cons_cons]
      rw [List.length_cons] at hs ⊢
      refine ⟨fun h htotal hsize => ?_, fun h => ⟨fun _ htotal => ?_, fun htotal hsize => ?_⟩⟩
      · refine h.2 ?_ hsize.2
        rw [if_neg hsize.1]
        omega
      · omega
      · by_cases hzero : e.2.size = 0
        · rw [if_pos hzero] at htotal
          omega
        · refine h ?_ ⟨hzero, hsize⟩
          rw [if_neg hzero] at htotal
          omega

theorem validateDataOffsets_ok {st : SafetensorsT} (h : validateDataOffsets st = .ok ()) :
    (st.tensors.entries.foldl (checkTensor st.bufferSize st.tensors.entries.length)
      ⟨true, [], 0⟩).valid = true := by
  unfold validateDataOffsets at h
  dsimp only at h
  split at h
  · assumption
  · cases h

theorem placed_of_valid {st : SafetensorsT} (h : validateDataOffsets st = .ok ()) :
    ∀ e ∈ st.tensors.entries, Placed st.bufferSize e.2 :=
  ((foldl_checkTensor_valid _ _ _ ⟨true, [], 0⟩ (Nat.le_of_eq (Nat.zero_add _))).mp
    (validateDataOffsets_ok h)).2.1

theorem valid_of_placed {st : SafetensorsT}
    (h : ∀ e ∈ st.tensors.entries, Placed st.bufferSize e.2)
    (hlast : (∀ e ∈ st.tensors.entries, e.2.size ≠ 0) →
      ∀ e ∈ st.tensors.entries.getLast?, e.2.dataOffsets.2.toNat = st.bufferSize) :
    validateDataOffsets st = .ok () :=
  if_pos ((foldl_checkTensor_valid _ _ _ ⟨true, [], 0⟩ (Nat.le_of_eq (Nat.zero_add _))).mpr
    ⟨rfl, h, fun _ => hlast⟩)

/-- The tensors that are accepted. If none of them has size 0, the last one ends where the buffer
ends. -/
theorem validateDataOffsets_ok_iff (st : SafetensorsT) :
    validateDataOffsets st = .ok () ↔
      (∀ e ∈ st.tensors.entries, Placed st.bufferSize e.2) ∧
      ((∀ e ∈ st.tensors.entries, e.2.size ≠ 0) →
        ∀ e ∈ st.tensors.entries.getLast?, e.2.dataOffsets.2.toNat = st.bufferSize) := by
  constructor
  · intro h
    have hfold := (foldl_checkTensor_valid _ _ _ ⟨true, [], 0⟩
      (Nat.le_of_eq (Nat.zero_add _))).mp (validateDataOffsets_ok h)
    exact ⟨placed_of_valid h, hfold.2.2 (Nat.zero_add _)⟩
  · intro h
    exact valid_of_placed h.1 h.2

/-! ## Saving -/

open Json (commas)

/-- An entry of the metadata, as it is written. -/
def metadataText (e : Text × Text) : Text :=
  ascii "\"" ++ e.1 ++ ascii "\": \"" ++ e.2 ++ ascii "\""

/-- A tensor of the header, as it is written. -/
def tensorText (e : Text × TensorT) : Text :=
  ascii "\"" ++ e.1 ++ ascii "\": \x7b" ++
  ascii "\"dtype\": \"" ++ getDtypeStr e.2.dtype ++ ascii "\", " ++
  ascii "\"shape\": [" ++ commas (e.2.shape.map number) ++ ascii "]" ++
  ascii ", \"data_offsets\": [" ++ number e.2.dataOffsets.1 ++ ascii ", " ++
  number e.2.dataOffsets.2 ++ ascii "]" ++ ascii "\x7d"

/-- `header_str`. -/
def headerText (st : SafetensorsT) : Text :=
  ascii "\x7b" ++
  (if st.metadata.entries = [] then []
  else
    ascii "\"__metadata__\": \x7b" ++ commas (st.metadata.entries.map metadataText) ++
    ascii "\x7d" ++ if st.tensors.entries = [] then [] else ascii ", ") ++
  commas (st.tensors.entries.map tensorText) ++ ascii "\x7d"

/-- `padded_header_size`: the data buffer starts at a multiple of 8. -/
def paddedSize (headerSize : Nat) : Nat :=
  headerSize + if headerSize % 8 ≠ 0 then 8 - headerSize % 8 else 0

/-- `save_to_memory`. A data buffer that cannot be read as a whole, as with `is_xds`, cannot be
copied: there is no file then, and no text. -/
def saveToMemory (st : SafetensorsT) : Except Text Bytes :=
  match validateDataOffsets st with
  | .error e => .error (ascii "Invalid safensors is provided.\n" ++ e)
  | .ok () =>
    match st.tensors.entries.find? fun e => e.2.shape.length > kMaxDim with
    | some e => .error (e.1 ++ ascii ".shape is too large.\n")
    | none =>
      let headerSize := (headerText st).length
      if st.buffer.length ≠ st.bufferSize then .error []
      else .ok (packQ (paddedSize headerSize) ++ headerText st ++
        List.replicate (paddedSize headerSize - headerSize) 0x20 ++ st.buffer)

end Fgds.Safetensors
