import Fgds.Safetensors.Save

/-!
# Saved files are loaded again

`save_to_memory` writes the header without escaping anything, and `size_t` numbers become a
`double` on the way back. A tensor with a dimension of size 0 is written with `data_offsets`, which
the loader refuses.

* `headerText_eq`, `parses_header`: the header is JSON, with these values;
* `parseRoot_values`: the values are read as the tensors and the metadata;
* `save_load_save`: what is loaded from a saved file is what was saved, and is saved as that file.
-/

namespace Fgds.Safetensors

open Backend (Bytes packQ unpackQ packQ_length)
open Lib
open Json (Plain Parses quoted commas arrayText fieldText objectText)

/-! ## The text as JSON -/

/-- The fields of a tensor. -/
def tensorFields (t : TensorT) : List (Text × Text) :=
  [(ascii "dtype", quoted (getDtypeStr t.dtype)), (ascii "shape", arrayText (t.shape.map number)),
    (ascii "data_offsets", arrayText [number t.dataOffsets.1, number t.dataOffsets.2])]

/-- The fields of the header. -/
def headerFields (st : SafetensorsT) : List (Text × Text) :=
  (if st.metadata.entries = [] then []
  else [(ascii "__metadata__", objectText (st.metadata.entries.map fun e => (e.1, quoted e.2)))]) ++
  st.tensors.entries.map fun e => (e.1, objectText (tensorFields e.2))

theorem metadataText_eq (e : Text × Text) : metadataText e = fieldText (e.1, quoted e.2) := by
  have hopen : ascii "\"" = [0x22] := by decide
  have hcolon : ascii "\": \"" = [0x22] ++ ascii ": " ++ [0x22] := by decide
  unfold metadataText fieldText quoted
  rw [hopen, hcolon]
  simp

theorem tensorText_eq (e : Text × TensorT) :
    tensorText e = fieldText (e.1, objectText (tensorFields e.2)) := by
  have hquote : ascii "\"" = [0x22] := by decide
  have hname : ascii "\": \x7b" = [0x22] ++ ascii ": " ++ [0x7b] := by decide
  have hdtype : ascii "\"dtype\": \"" = quoted (ascii "dtype") ++ ascii ": " ++ [0x22] := by decide
  have hnext : ascii "\", " = [0x22] ++ ascii ", " := by decide
  have hshape : ascii "\"shape\": [" = quoted (ascii "shape") ++ ascii ": " ++ [0x5b] := by decide
  have hbracket : ascii "]" = [0x5d] := by decide
  have hoffsets : ascii ", \"data_offsets\": [" =
      ascii ", " ++ quoted (ascii "data_offsets") ++ ascii ": " ++ [0x5b] := by decide
  have hbrace : ascii "\x7d" = [0x7d] := by decide
  unfold tensorText
  rw [hquote, hname, hdtype, hnext, hshape, hbracket, hoffsets, hbrace]
  simp [tensorFields, objectText, arrayText, fieldText, commas, quoted]

theorem commas_cons (t : Text) (ts : List Text) :
    commas (t :: ts) = t ++ (if ts = [] then [] else ascii ", ") ++ commas ts := by
  cases ts with
  | nil => simp [commas]
  | cons u ts => rw [commas, if_neg (List.cons_ne_nil u ts)]

theorem headerText_eq (st : SafetensorsT) : headerText st = objectText (headerFields st) := by
  have hopen : ascii "\x7b" = [0x7b] := by decide
  have hclose : ascii "\x7d" = [0x7d] := by decide
  have hmetadata : ascii "\"__metadata__\": \x7b" =
      quoted (ascii "__metadata__") ++ ascii ": " ++ [0x7b] := by decide
  have htensors : st.tensors.entries.map tensorText =
      (st.tensors.entries.map fun e => (e.1, objectText (tensorFields e.2))).map fieldText := by
    rw [List.map_map]
    exact List.map_congr_left fun e _ => tensorText_eq e
  have hentries : st.metadata.entries.map metadataText =
      (st.metadata.entries.map fun e => (e.1, quoted e.2)).map fieldText := by
    rw [List.map_map]
    exact List.map_congr_left fun e _ => metadataText_eq e
  unfold headerText headerFields
  rw [hopen, hclose, hmetadata, htensors, hentries]
  by_cases hnone : st.metadata.entries = []
  · simp [hnone, objectText]
  · rw [if_neg hnone, if_neg hnone]
    show _ = 0x7b :: commas (fieldText _ :: List.map fieldText _) ++ [0x7d]
    rw [commas_cons]
    simp [fieldText, objectText]

/-! ## The values -/

section Values

variable {N : Type} (double : Double N)

def numberValue (n : SizeT) : Json.Value N := .number (double.fromChars (number n))

def tensorValue (t : TensorT) : Json.Value N :=
  .object [(ascii "dtype", .string (getDtypeStr t.dtype)),
    (ascii "shape", .array (t.shape.map (numberValue double))),
    (ascii "data_offsets",
      .array [numberValue double t.dataOffsets.1, numberValue double t.dataOffsets.2])]

def headerValues (st : SafetensorsT) : List (Text × Json.Value N) :=
  (if st.metadata.entries = [] then []
  else [(ascii "__metadata__", .object (st.metadata.entries.map fun e => (e.1, .string e.2)))]) ++
  st.tensors.entries.map fun e => (e.1, tensorValue double e.2)

/-- What the header can hold: `save_to_memory` escapes nothing, a `double` has 53 bits, and the key
of the metadata is taken. -/
structure Printable (st : SafetensorsT) : Prop where
  names : ∀ e ∈ st.tensors.entries, Plain e.1 ∧ e.1 ≠ ascii "__metadata__"
  metadata : ∀ e ∈ st.metadata.entries, Plain e.1 ∧ Plain e.2
  shapes : ∀ e ∈ st.tensors.entries, ∀ n ∈ e.2.shape, n ≤ 2 ^ 53
  offsets : ∀ e ∈ st.tensors.entries, e.2.dataOffsets.1 ≤ 2 ^ 53 ∧ e.2.dataOffsets.2 ≤ 2 ^ 53
  size : paddedSize (headerText st).length ≤ kMaxJSONSize

theorem parses_numberValue (n : SizeT) :
    Parses double.fromChars (number n) (numberValue double n) :=
  Json.parses_number n.toNat

theorem plain_getDtypeStr (d : Dtype) : Plain (getDtypeStr d) := by
  refine Json.plain_of_ascii ?_
  cases d with
  | _ => decide

theorem parses_tensorValue (t : TensorT) :
    Parses double.fromChars (objectText (tensorFields t)) (tensorValue double t) := by
  refine Json.parses_object
    (.cons ⟨rfl, ?_, ?_⟩ (.cons ⟨rfl, ?_, ?_⟩ (.cons ⟨rfl, ?_, ?_⟩ .nil))) ?_
  · exact Json.plain_of_ascii (t := ascii "dtype") (by decide)
  · exact Json.parses_string (plain_getDtypeStr t.dtype)
  · exact Json.plain_of_ascii (t := ascii "shape") (by decide)
  · refine Json.parses_array ?_
    rw [List.forall₂_map_left_iff, List.forall₂_map_right_iff, List.forall₂_same]
    exact fun n _ => parses_numberValue double n
  · exact Json.plain_of_ascii (t := ascii "data_offsets") (by decide)
  · exact Json.parses_array
      (.cons (parses_numberValue double _) (.cons (parses_numberValue double _) .nil))
  · exact (by decide : [ascii "dtype", ascii "shape", ascii "data_offsets"].Nodup)

theorem parses_header {st : SafetensorsT} (h : Printable st) :
    Parses double.fromChars (headerText st) (.object (headerValues double st)) := by
  have htensors : List.Forall₂
      (fun (f : Text × Text) v => f.1 = v.1 ∧ Plain f.1 ∧ Parses double.fromChars f.2 v.2)
      (st.tensors.entries.map fun e => (e.1, objectText (tensorFields e.2)))
      (st.tensors.entries.map fun e => (e.1, tensorValue double e.2)) := by
    rw [List.forall₂_map_left_iff, List.forall₂_map_right_iff, List.forall₂_same]
    exact fun e he => ⟨rfl, (h.names e he).1, parses_tensorValue double e.2⟩
  have hkeys : (st.tensors.entries.map fun e => (e.1, tensorValue double e.2)).map Prod.fst =
      st.tensors.keys := by
    rw [List.map_map]
    rfl
  rw [headerText_eq]
  unfold headerFields headerValues
  by_cases hnone : st.metadata.entries = []
  · rw [if_pos hnone, if_pos hnone]
    refine Json.parses_object htensors ?_
    rw [List.nil_append, hkeys]
    exact st.tensors.distinct
  · rw [if_neg hnone, if_neg hnone]
    refine Json.parses_object (.cons ⟨rfl, ?_, ?_⟩ htensors) ?_
    · exact Json.plain_of_ascii (t := ascii "__metadata__") (by decide)
    · refine Json.parses_object ?_ ?_
      · rw [List.forall₂_map_left_iff, List.forall₂_map_right_iff, List.forall₂_same]
        exact fun e he => ⟨rfl, (h.metadata e he).1, Json.parses_string (h.metadata e he).2⟩
      · rw [List.map_map]
        exact st.metadata.distinct
    · rw [List.map_append, hkeys]
      refine List.nodup_cons.mpr ⟨fun hmem => ?_, st.tensors.distinct⟩
      obtain ⟨e, he, hname⟩ := List.mem_map.mp hmem
      exact (h.names e he).2 hname

end Values

/-! ## Reading the values -/

/-- A result, unless there is an error. -/
def okUnless {ε α : Type} (e : Option ε) (a : α) : Except ε α :=
  match e with
  | some e => .error e
  | none => .ok a

/-- A loop that takes in one item after the other, up to the first one that is bad. -/
theorem foldlM_find {ε σ α β : Type} {f : σ → β → Except ε σ} {g : α → β} {l : List α}
    (state : List α → σ) (bad : α → Bool) (err : α → ε)
    (hf : ∀ done a rest, l = done ++ a :: rest →
      f (state done) (g a) = if bad a then .error (err a) else .ok (state (done ++ [a]))) :
    (l.map g).foldlM f (state []) = okUnless ((l.find? bad).map err) (state l) := by
  have hall : ∀ rest done, l = done ++ rest →
      (rest.map g).foldlM f (state done) = okUnless ((rest.find? bad).map err) (state l) := by
    intro rest
    induction rest with
    | nil =>
      rintro done rfl
      rw [List.append_nil]
      rfl
    | cons a rest ih =>
      intro done hl
      rw [List.map_cons, List.foldlM_cons, hf done a rest hl, List.find?_cons]
      cases bad a with
      | true => rfl
      | false => exact ih (done ++ [a]) (by rw [hl, List.append_cons])
  exact hall l [] rfl

theorem foldlM_steps {ε σ α β : Type} [Inhabited ε] {f : σ → β → Except ε σ} {g : α → β}
    {l : List α} (state : List α → σ) (hf : ∀ done a rest, l = done ++ a :: rest →
      f (state done) (g a) = .ok (state (done ++ [a]))) :
    (l.map g).foldlM f (state []) = .ok (state l) := by
  have hnone : (l.find? fun _ => false) = none := List.find?_eq_none.mpr fun _ _ => nofun
  rw [foldlM_find state (fun _ => false) (fun _ => default) hf, hnone]
  rfl

section Reading

variable {N : Type} (double : Double N)

theorem parseDtype_getDtypeStr (d : Dtype) :
    parseDtype (.string (getDtypeStr d) : Json.Value N) = .ok d := by
  have hlookup : dtypeNames.lookup (getDtypeStr d) = some d := by
    cases d with
    | _ => decide
  unfold parseDtype
  dsimp only
  rw [hlookup]

theorem parseShape_values {shape : List SizeT} (hlen : shape.length ≤ kMaxDim)
    (hexact : ∀ n ∈ shape, n ≤ 2 ^ 53) :
    parseShape double (.array (shape.map (numberValue double))) = .ok shape := by
  refine foldlM_steps id ?_
  rintro done n rest rfl
  rw [List.length_append, List.length_cons] at hlen
  have hn : double.toSize (double.fromChars (number n)) = n :=
    double.exact n (hexact n (List.mem_append_right _ List.mem_cons_self))
  unfold shapeItem numberValue
  dsimp only [id]
  rw [if_neg (by omega), hn]

theorem parseDataOffsets_values {start stop : SizeT} (hstart : start ≤ 2 ^ 53)
    (hstop : stop ≤ 2 ^ 53) :
    parseDataOffsets double (.array [numberValue double start, numberValue double stop]) =
      .ok (start, stop) := by
  show Except.ok (double.toSize (double.fromChars (number start)),
    double.toSize (double.fromChars (number stop))) = _
  rw [number, number, double.exact start hstart, double.exact stop hstop]

theorem tensorItem_dtype (s : Found) (v : Json.Value N) :
    tensorItem double s (ascii "dtype", v) =
      (parseDtype v).map fun dtype => { s with dtype := some dtype } := if_pos rfl

theorem tensorItem_shape (s : Found) (v : Json.Value N) :
    tensorItem double s (ascii "shape", v) =
      (parseShape double v).map fun shape => { s with shape := some shape } := by
  unfold tensorItem
  dsimp only
  rw [if_neg (by decide), if_pos rfl]

theorem tensorItem_dataOffsets (s : Found) (v : Json.Value N) :
    tensorItem double s (ascii "data_offsets", v) =
      (parseDataOffsets double v).map fun offsets => { s with dataOffsets := some offsets } := by
  unfold tensorItem
  dsimp only
  rw [if_neg (by decide), if_neg (by decide), if_pos rfl]

theorem parseTensor_value {t : TensorT} (name : Text) (hlen : t.shape.length ≤ kMaxDim)
    (hshape : ∀ n ∈ t.shape, n ≤ 2 ^ 53)
    (hoffsets : t.dataOffsets.1 ≤ 2 ^ 53 ∧ t.dataOffsets.2 ≤ 2 ^ 53) :
    parseTensor double name (tensorValue double t) =
      if 0 ∈ t.shape then .error (emptyTensor name) else .ok t := by
  unfold parseTensor tensorValue
  simp only [List.foldlM_cons, List.foldlM_nil, tensorItem_dtype, parseDtype_getDtypeStr,
    tensorItem_shape, parseShape_values double hlen hshape, tensorItem_dataOffsets,
    parseDataOffsets_values double hoffsets.1 hoffsets.2, Except.map, bind, Except.bind, pure,
    Except.pure, foundTensor]

theorem parseMetadata_values (metadata : OrderedDict Text) :
    parseMetadata (.object (metadata.entries.map fun e => (e.1, .string e.2)) : Json.Value N)
      .empty = .ok metadata := by
  have hread : List.foldlM metadataEntry (.ofEntries [])
      (metadata.entries.map fun e => (e.1, (.string e.2 : Json.Value N))) =
      .ok (.ofEntries metadata.entries) := by
    refine foldlM_steps OrderedDict.ofEntries fun done e rest hl => ?_
    have hnodup := metadata.distinct
    rw [hl] at hnodup
    unfold metadataEntry
    dsimp only
    rw [OrderedDict.count_ofEntries hnodup, OrderedDict.ofEntries_snoc]
    rfl
  rw [OrderedDict.ofEntries_entries] at hread
  exact hread

/-- One tensor of a saved header. -/
theorem headerEntry_tensor {st : SafetensorsT} (h : Printable st)
    (hdims : ∀ e ∈ st.tensors.entries, e.2.shape.length ≤ kMaxDim) (metadata : OrderedDict Text)
    {done rest : List (Text × TensorT)} {e : Text × TensorT}
    (hl : st.tensors.entries = done ++ e :: rest) :
    headerEntry double (.ofEntries done, metadata) (e.1, tensorValue double e.2) =
      if 0 ∈ e.2.shape then .error (emptyTensor e.1)
      else .ok (.ofEntries (done ++ [e]), metadata) := by
  have he : e ∈ st.tensors.entries := hl ▸ List.mem_append_right _ List.mem_cons_self
  have hnodup := st.tensors.distinct
  rw [hl] at hnodup
  unfold headerEntry
  dsimp only
  rw [if_neg (h.names e he).2, OrderedDict.count_ofEntries hnodup,
    parseTensor_value double e.1 (hdims e he) (h.shapes e he) (h.offsets e he),
    OrderedDict.ofEntries_snoc]
  by_cases hempty : 0 ∈ e.2.shape
  · rw [if_pos hempty, if_pos hempty]
    rfl
  · rw [if_neg hempty, if_neg hempty]
    rfl

/-- The error for the first tensor without data. -/
def firstEmpty (st : SafetensorsT) : Option Text :=
  (st.tensors.entries.find? fun e => decide (0 ∈ e.2.shape)).map fun e => emptyTensor e.1

/-- The tensors of a saved header, up to the first one without data. -/
theorem foldlM_headerEntry {st : SafetensorsT} (h : Printable st)
    (hdims : ∀ e ∈ st.tensors.entries, e.2.shape.length ≤ kMaxDim) (metadata : OrderedDict Text) :
    (st.tensors.entries.map fun e => (e.1, tensorValue double e.2)).foldlM (headerEntry double)
      (.empty, metadata) = okUnless (firstEmpty st) (st.tensors, metadata) := by
  have hsteps : ∀ done e rest, st.tensors.entries = done ++ e :: rest →
      headerEntry double (.ofEntries done, metadata) (e.1, tensorValue double e.2) =
        if decide (0 ∈ e.2.shape) then .error (emptyTensor e.1)
        else .ok (.ofEntries (done ++ [e]), metadata) := by
    intro done e rest hl
    rw [headerEntry_tensor double h hdims metadata hl]
    simp only [decide_eq_true_eq]
  have hread := foldlM_find (fun done => (OrderedDict.ofEntries done, metadata)) _ _ hsteps
  rw [OrderedDict.ofEntries_entries] at hread
  exact hread

/-- The root of a saved header. -/
theorem parseRoot_values {st : SafetensorsT} (h : Printable st)
    (hdims : ∀ e ∈ st.tensors.entries, e.2.shape.length ≤ kMaxDim) (headerSize : Nat) :
    parseRoot double headerSize (.object (headerValues double st)) =
      okUnless (firstEmpty st) ⟨st.tensors, st.metadata, headerSize, []⟩ := by
  have hmetadata : (if st.metadata.entries = [] then []
      else [(ascii "__metadata__",
        .object (st.metadata.entries.map fun e => (e.1, .string e.2)))]).foldlM
      (headerEntry double) (.empty, .empty) = .ok (.empty, st.metadata) := by
    by_cases hnone : st.metadata.entries = []
    · have hempty : st.metadata = .empty := OrderedDict.ext hnone
      rw [if_pos hnone, hempty]
      rfl
    · rw [if_neg hnone, List.foldlM_cons, headerEntry, if_pos rfl, parseMetadata_values]
      rfl
  unfold parseRoot headerValues
  dsimp only
  rw [List.foldlM_append, hmetadata]
  show Except.map _ (List.foldlM (headerEntry double) (.empty, st.metadata) _) = _
  rw [foldlM_headerEntry double h hdims]
  cases firstEmpty st with
  | none => rfl
  | some e => rfl

end Reading

/-! ## The file -/

theorem unpackQ_packQ {n : Nat} (h : n < 2 ^ 64) : unpackQ (packQ n) = n := by
  have hbytes : packQ n = [.ofNat (n / 256 ^ 0), .ofNat (n / 256 ^ 1), .ofNat (n / 256 ^ 2),
      .ofNat (n / 256 ^ 3), .ofNat (n / 256 ^ 4), .ofNat (n / 256 ^ 5), .ofNat (n / 256 ^ 6),
      .ofNat (n / 256 ^ 7)] := rfl
  rw [hbytes]
  simp only [unpackQ, List.foldr_cons, List.foldr_nil, UInt8.toNat_ofNat']
  omega

theorem paddedSize_spec (n : Nat) : paddedSize n % 8 = 0 ∧ n ≤ paddedSize n := by
  unfold paddedSize
  split
  · omega
  · omega

/-- What is written. -/
theorem saveToMemory_ok {st : SafetensorsT} {file : Bytes} (h : saveToMemory st = .ok file) :
    (∀ e ∈ st.tensors.entries, e.2.shape.length ≤ kMaxDim) ∧
      file = packQ (paddedSize (headerText st).length) ++ headerText st ++
        List.replicate (paddedSize (headerText st).length - (headerText st).length) 0x20 ++
        st.buffer := by
  unfold saveToMemory at h
  split at h
  · cases h
  · split at h
    · cases h
    · rename_i hdims
      dsimp only at h
      split at h
      · cases h
      cases h
      refine ⟨fun e he => ?_, rfl⟩
      have hdim := List.find?_eq_none.mp hdims e he
      rw [decide_eq_true_eq] at hdim
      exact Nat.le_of_not_lt hdim

/-- What is written has been read. -/
theorem saveToMemory_readable {st : SafetensorsT} {file : Bytes} (h : saveToMemory st = .ok file) :
    st.buffer.length = st.bufferSize := by
  by_contra hne
  unfold saveToMemory at h
  dsimp only at h
  rw [if_pos hne] at h
  split at h
  · cases h
  · split at h
    · cases h
    · cases h

section Files

variable {N : Type} (double : Double N)

/-- A size, a JSON text of that size, and the data buffer. -/
theorem loadFromMemory_file {padded : Nat} {text buffer rest : Bytes} {v : Json.Value N}
    (hlen : text.length = padded) (hmin : 8 ≤ padded) (hlimit : padded ≤ kMaxJSONSize)
    (hjson : Json.parse double.fromChars text = .ok (v, rest)) :
    loadFromMemory double (packQ padded ++ text ++ buffer) =
      (parseRoot double padded v).map fun header =>
        (⟨header.tensors, header.metadata, buffer, padded, false, [], 0⟩, header.err) := by
  have hfirst : (packQ padded ++ text ++ buffer).take 8 = packQ padded := by
    rw [List.append_assoc]
    exact List.take_left' (packQ_length padded)
  have hsize : unpackQ ((packQ padded ++ text ++ buffer).take 8) = padded := by
    rw [hfirst]
    rw [kMaxJSONSize] at hlimit
    exact unpackQ_packQ (by omega)
  have htext : ((packQ padded ++ text ++ buffer).drop 8).take padded = text := by
    rw [List.append_assoc, List.drop_left' (packQ_length padded)]
    exact List.take_left' hlen
  have hbuffer : (packQ padded ++ text ++ buffer).drop (8 + padded) = buffer :=
    List.drop_left' (by rw [List.length_append, packQ_length, hlen])
  have hlength : (packQ padded ++ text ++ buffer).length = 8 + padded + buffer.length := by
    rw [List.length_append, List.length_append, packQ_length, hlen]
  rw [loadFromMemory, if_neg (by omega), parseSafetensorsHeader_eq hsize (by omega) (by omega)
    (by omega) hlimit, parseJson, htext, hjson]
  dsimp only
  cases hroot : parseRoot double padded v with
  | error e => rfl
  | ok header =>
    show Except.ok (_, _) = Except.ok (_, _)
    rw [parseRoot_headerSize hroot, hbuffer]

/-- A saved file is read as what was saved, or refused for its first tensor without data. -/
theorem loadFromMemory_saved {st : SafetensorsT} {file : Bytes} (h : Printable st)
    (hsave : saveToMemory st = .ok file) :
    loadFromMemory double file = okUnless (firstEmpty st)
      (⟨st.tensors, st.metadata, st.buffer, paddedSize (headerText st).length, false, [], 0⟩,
        []) := by
  obtain ⟨hdims, rfl⟩ := saveToMemory_ok hsave
  obtain ⟨hmod, hpad⟩ := paddedSize_spec (headerText st).length
  have hpos : 2 ≤ (headerText st).length := by
    rw [headerText_eq, objectText]
    simp
  have hlen : (headerText st ++ List.replicate (paddedSize (headerText st).length -
      (headerText st).length) 0x20).length = paddedSize (headerText st).length := by
    rw [List.length_append, List.length_replicate]
    omega
  have hjson := (parses_header double h).whole
    (paddedSize (headerText st).length - (headerText st).length)
  rw [List.append_assoc _ (headerText st), loadFromMemory_file double hlen (by omega) h.size hjson,
    parseRoot_values double h hdims]
  cases firstEmpty st with
  | none => rfl
  | some e => rfl

omit double in
theorem saveToMemory_congr {st st' : SafetensorsT} (htensors : st'.tensors = st.tensors)
    (hmetadata : st'.metadata = st.metadata) (hbuffer : st'.buffer = st.buffer)
    (hsize : st'.bufferSize = st.bufferSize) : saveToMemory st' = saveToMemory st := by
  have hvalid : validateDataOffsets st' = validateDataOffsets st := by
    unfold validateDataOffsets
    rw [htensors, hsize]
  have htext : headerText st' = headerText st := by
    unfold headerText
    rw [htensors, hmetadata]
  unfold saveToMemory
  rw [hvalid, htext, htensors, hbuffer, hsize]

/-- A saved file is refused for its first tensor without data. If there is none, it is loaded as
what was saved, and saving that again gives the same file. -/
theorem save_load_save {st : SafetensorsT} {file : Bytes} (h : Printable st)
    (hsave : saveToMemory st = .ok file) :
    (∀ err, firstEmpty st = some err → loadFromMemory double file = .error err) ∧
      (firstEmpty st = none → ∃ st', loadFromMemory double file = .ok (st', []) ∧
        st'.tensors = st.tensors ∧ st'.metadata = st.metadata ∧ st'.buffer = st.buffer ∧
        saveToMemory st' = .ok file) := by
  have hload := loadFromMemory_saved double h hsave
  constructor
  · intro err herr
    rw [hload, herr]
    rfl
  · intro hnone
    rw [hnone] at hload
    refine ⟨_, hload, rfl, rfl, rfl, ?_⟩
    rw [← hsave]
    exact saveToMemory_congr rfl rfl rfl (saveToMemory_readable hsave)

end Files

/-- Two floats and a scalar, with metadata. -/
def twoTensors : SafetensorsT where
  tensors := ⟨[(ascii "weight", ⟨.float32, [2], (0, 8)⟩), (ascii "scale", ⟨.float16, [], (8, 10)⟩)],
    by decide⟩
  metadata := ⟨[(ascii "format", ascii "pt")], by decide⟩
  storage := [1, 2, 3, 4, 5, 6, 7, 8, 9, 10]
  headerSize := 0
  mmaped := false
  databuffer := []
  databufferSize := 0

theorem twoTensors_printable : Printable twoTensors where
  names := by
    have hall : ∀ e ∈ twoTensors.tensors.entries, e.1.all Json.unescaped ∧
        e.1 ≠ ascii "__metadata__" := by decide
    exact fun e he => ⟨Json.plain_of_ascii (hall e he).1, (hall e he).2⟩
  metadata := by
    have hall : ∀ e ∈ twoTensors.metadata.entries, e.1.all Json.unescaped ∧
        e.2.all Json.unescaped := by decide
    exact fun e he => ⟨Json.plain_of_ascii (hall e he).1, Json.plain_of_ascii (hall e he).2⟩
  shapes := by
    have hall : ∀ e ∈ twoTensors.tensors.entries, e.2.shape.all fun n => n ≤ 2 ^ 53 := by decide
    exact fun e he n hn => of_decide_eq_true (List.all_eq_true.mp (hall e he) n hn)
  offsets := by decide
  size := by decide +kernel

theorem save_load_save_twoTensors :
    ∃ file st', saveToMemory twoTensors = .ok file ∧
      loadFromMemory wideDouble file = .ok (st', []) ∧ saveToMemory st' = .ok file := by
  obtain ⟨file, hfile⟩ : ∃ file, saveToMemory twoTensors = .ok file := ⟨_, rfl⟩
  obtain ⟨st', hload, _, _, _, hsave⟩ :=
    (save_load_save wideDouble twoTensors_printable hfile).2 (by decide)
  exact ⟨file, st', hfile, hload, hsave⟩

end Fgds.Safetensors
