import Qwen38.Lib.BitPacking
import Qwen38.Lib.Loop
import Qwen38.Lib.Ranges
import Qwen38.Model.Manifest

/-!
# The n-gram table

`NgramTable` over the shards of a model: the two constructors that take the shards from a
`TensorStore`, with paired rows (`Qwen38.NgramTable.initialize_paired`) or with vector-quantised
ones (`Qwen38.NgramTable.initialize_vector_quantized`), and `gather` for one row of each.

Sizes are words of 64 bits and wrap around. A read is a part of the bytes of a tensor, which may
be fewer than its shape says; one that is not inside of them stops the program. A cell of a row
comes as the numbers that its value is computed from.
-/

namespace Qwen38

open Checked

/-! ### The store -/

section Store

variable {D : Type} (manifest : ModelManifest D)

/-- `resolve_tensor_name`. -/
def ModelManifest.resolve_tensor_name (name : Bytes) : Bytes :=
  let wrapper := bytes "language_model."
  if name ∈ manifest.weight_map then name
  else if wrapper <+: name ∧ name.drop wrapper.length ∈ manifest.weight_map then
    name.drop wrapper.length
  else name

/-- `has_tensor`. -/
def ModelManifest.has_tensor (name : Bytes) : Bool :=
  manifest.resolve_tensor_name name ∈ manifest.weight_map

/-- `TensorStore`, with the files that its shards are read from. -/
structure TensorStore (D : Type) where
  numbers : NumberText
  buckets : UnorderedMap.BucketOrder Bytes
  directory : ModelDirectory D
  manifest : ModelManifest D

/-- `TensorStore::tensor`. -/
def TensorStore.tensor (store : TensorStore D) (name : Bytes) : Load TensorView :=
  let resolved := store.manifest.resolve_tensor_name name
  match store.manifest.weight_map.lookup resolved with
  | none => .error (.thrown (message "tensor is not present in model index: " name))
  | some shard =>
    match store.directory.files shard with
    | none => .error (.thrown (message "cannot open " (store.directory.path ++ 47 :: shard)))
    | some file => do
      let index ← SafetensorsFile.read store.numbers store.buckets
        (store.directory.path ++ 47 :: shard) file
      index.tensor resolved

end Store

/-! ### The table -/

/-- A number of 64 bits. -/
def size_t (n : Nat) : Nat := n % 2 ^ 64

/-- `PairedShard`. -/
structure PairedShard where
  logical_begin : Nat
  logical_end : Nat
  weight : TensorView
  scales : TensorView
  biases : TensorView

/-- `VectorQuantizedShard`. -/
structure VectorQuantizedShard where
  logical_begin : Nat
  logical_end : Nat
  codes : TensorView
  codebook : TensorView
  scales : TensorView

/-- `NgramTable`. -/
structure NgramTable where
  rows : Nat
  packed_word_count : Nat := 20
  scale_count : Nat := 5
  group_size : Nat := 32
  bits : Nat := 4
  pair : Nat := 1
  paired_shards : List PairedShard := []
  vector_quantized_shards : List VectorQuantizedShard := []

namespace NgramTable

/-- `dimension_`. -/
def dimension : Nat := 160

/-! ### Paired rows -/

/-- The rows of a shard, if its tensors fit together. -/
def paired_geometry (packed_word_count scale_count : Nat) (weight scales biases : TensorView) :
    Option Nat :=
  match weight.shape, scales.shape, biases.shape with
  | [rows, words], [scale_rows, scale_width], [bias_rows, bias_width] =>
    if weight.dtype = bytes "U32" ∧ scales.dtype = bytes "BF16" ∧ biases.dtype = bytes "BF16" ∧
        words = packed_word_count ∧ scale_rows = rows ∧ bias_rows = rows ∧
        scale_width = scale_count ∧ bias_width = scale_count then some rows
    else none
  | _, _, _ => none

/-- One pass of the loop over the paired shards, with the row it has come to. -/
def paired_pass {D : Type} (store : TensorStore D) (tensors : Bytes) (table : NgramTable)
    (s : Nat × NgramTable) : Load (Loop.Pass (Nat × NgramTable)) :=
  let base := tensors ++ bytes (toString s.2.paired_shards.length)
  if ¬store.manifest.has_tensor (base ++ bytes ".weight") then .ok (.leave s)
  else do
    let weight ← store.tensor (base ++ bytes ".weight")
    let scales ← store.tensor (base ++ bytes ".scales")
    let biases ← store.tensor (base ++ bytes ".biases")
    match paired_geometry table.packed_word_count table.scale_count weight scales biases with
    | none => .error (.thrown (message "Niwaki paired PLE shard geometry mismatch: " base))
    | some physical_rows => do
      refuse_if ((2 ^ 64 - 1 - s.1) / table.pair < physical_rows)
        (message "Niwaki paired PLE row count overflow")
      let logical_end := s.1 + physical_rows * table.pair
      .ok (.next (logical_end, { s.2 with
        paired_shards := s.2.paired_shards ++ [⟨s.1, logical_end, weight, scales, biases⟩] }))

/-- `initialize_paired`. The loop over the shards ends at the first number that is missing;
`passes` bounds it. -/
def initialize_paired {D : Type} (store : TensorStore D) (rows passes : Nat) : Load NgramTable := do
  let config := store.manifest.config
  let pair := config.niwaki_ple_pair
  let bits := config.niwaki_ple_bits
  let group_size := config.niwaki_ple_group_size
  refuse_if (pair < 2 ∨ bits = 0 ∨ group_size = 0)
    (message "model has neither a legacy n-gram table nor Niwaki paired PLE metadata")
  let physical_dimension := size_t (dimension * pair)
  refuse_if (size_t (physical_dimension * bits) % 32 ≠ 0 ∨ physical_dimension % group_size ≠ 0)
    (message "invalid Niwaki paired PLE quantization geometry")
  let table : NgramTable := {
    rows, pair, bits, group_size
    packed_word_count := size_t (physical_dimension * bits) / 32
    scale_count := physical_dimension / group_size }
  match config.ple_layer_ids with
  | [layer] => do
    let tensors := bytes ("language_model.model.layers." ++ toString (size_t (layer + (2 ^ 64 - 1))) ++
      ".ple.ple_embedding.ngram_embedding.shards.")
    let (logical_begin, table) ←
      Loop.run (fun _ => true) (paired_pass store tensors table) passes (0, table)
    refuse_if (table.paired_shards = [] ∨ logical_begin ≠ rows)
      (message "Niwaki paired PLE total row count mismatch")
    .ok table
  | _ => .error (.thrown (message "Niwaki paired PLE requires exactly one PLE layer"))

/-- What the value of a column is computed from. -/
structure Cell where
  quantized : Nat
  scale : Nat
  bias : Nat

/-- How many codes a word has. -/
def values_per_word (table : NgramTable) : Nat := 32 / table.bits

/-- Where the word of a column is read. -/
def word_offset (table : NgramTable) (physical_row column : Nat) : Nat :=
  size_t (physical_row * size_t (table.packed_word_count * 4)) + column / table.values_per_word * 4

/-- Where the scale and the bias of a column are read. -/
def group_offset (table : NgramTable) (physical_row column : Nat) : Nat :=
  size_t (physical_row * size_t (table.scale_count * 2)) + column / table.group_size * 2

/-- One column of a row. -/
def decode_cell (table : NgramTable) (shard : PairedShard) (physical_row column : Nat) :
    Load Cell := do
  let word ← slice shard.weight.bytes (table.word_offset physical_row column) 4
  let scale ← slice shard.scales.bytes (table.group_offset physical_row column) 2
  let bias ← slice shard.biases.bytes (table.group_offset physical_row column) 2
  .ok {
    quantized := LittleEndian.value word >>> (column % table.values_per_word * table.bits) &&&
      (2 ^ table.bits - 1)
    scale := LittleEndian.value scale
    bias := LittleEndian.value bias }

/-- `decode_paired_row`. -/
def decode_paired_row (table : NgramTable) (shard : PairedShard) (logical_row : Nat) :
    Load (List Cell) := do
  refuse_if (logical_row < shard.logical_begin ∨ shard.logical_end ≤ logical_row)
    (message "invalid Niwaki paired PLE row")
  let within := logical_row - shard.logical_begin
  let physical_row := within / table.pair
  let piece := within % table.pair
  (List.range dimension).mapM fun index =>
    decode_cell table shard physical_row (size_t (piece * dimension + index))

/-- The search for the shard of a row. -/
def find_paired (table : NgramTable) (logical_row : Nat) : Option PairedShard :=
  table.paired_shards.find? fun candidate => logical_row < candidate.logical_end

/-- `gather`, for one paired row. -/
def gather_paired (table : NgramTable) (row_id : Int) : Load (List Cell) := do
  refuse_if (row_id < 0 ∨ table.rows ≤ row_id) (message "n-gram row index is out of range")
  match table.find_paired row_id.toNat with
  | none => .error (.thrown (message "Niwaki paired PLE shard lookup failed"))
  | some shard => do
    refuse_if (row_id.toNat < shard.logical_begin)
      (message "Niwaki paired PLE shard lookup failed")
    decode_paired_row table shard row_id.toNat

/-! ### Vector-quantised rows -/

/-- `shard_number`: what stands behind the last underscore. -/
def shard_number (key : Bytes) : Load Nat :=
  let digits := (key.reverse.takeWhile (· ≠ 95)).reverse
  if 95 ∉ key ∨ digits = [] then
    .error (.thrown (message "invalid vector-quantized PLE shard key"))
  else
    match layer_of_text digits with
    | some number => .ok number
    | none => .error (.thrown (message "invalid vector-quantized PLE shard number"))

/-- The keys in the order of their numbers, which are all there. -/
def sorted_keys (keys : List Bytes) : Load (List Bytes) := do
  let numbers ← keys.mapM shard_number
  let sorted := (numbers.zip keys).insertionSort fun left right => left.1 ≤ right.1
  refuse_if (sorted.map Prod.fst ≠ List.range sorted.length)
    (message "vector-quantized PLE shard sequence is incomplete")
  .ok (sorted.map Prod.snd)

/-- The rows of a shard, if its tensors fit together. -/
def vector_geometry (spec : VectorQuantizedPleSpec) (codes codebook scales : TensorView) :
    Option Nat :=
  match codes.shape, codebook.shape, scales.shape with
  | [rows, row_bytes], [codebook_size, vector_dimension], [scale_rows, scale_width] =>
    if codes.dtype = bytes "U8" ∧ codebook.dtype = bytes "F16" ∧ scales.dtype = bytes "F16" ∧
        row_bytes = spec.row_bytes ∧ codebook_size = spec.codebook_size ∧
        vector_dimension = spec.vector_dimension ∧ scale_rows = rows ∧
        scale_width = dimension / spec.group_size then some rows
    else none
  | _, _, _ => none

/-- One pass of the loop over the vector-quantised shards. -/
def vector_pass {D : Type} (store : TensorStore D) (spec : VectorQuantizedPleSpec)
    (s : Nat × List VectorQuantizedShard) (base : Bytes) :
    Load (Nat × List VectorQuantizedShard) := do
  let codes ← store.tensor (base ++ bytes ".codes")
  let codebook ← store.tensor (base ++ bytes ".codebook")
  let scales ← store.tensor (base ++ bytes ".vq_scales")
  match vector_geometry spec codes codebook scales with
  | none => .error (.thrown (message "vector-quantized PLE shard geometry mismatch: " base))
  | some rows => do
    let logical_end := size_t (s.1 + rows)
    refuse_if (logical_end < s.1) (message "vector-quantized PLE row count overflows")
    .ok (logical_end, s.2 ++ [⟨s.1, logical_end, codes, codebook, scales⟩])

/-- `initialize_vector_quantized`, for a manifest with such a table. -/
def initialize_vector_quantized {D : Type} (store : TensorStore D) (spec : VectorQuantizedPleSpec)
    (rows : Nat) : Load NgramTable := do
  refuse_if (spec.codebook_size ≠ 256 ∨ spec.vector_dimension ≠ 8 ∨ spec.group_size ≠ 32 ∨
      spec.row_bytes ≠ dimension / spec.vector_dimension)
    (message "unsupported vector-quantized PLE table geometry")
  let keys ← sorted_keys spec.keys
  let (logical_begin, vector_quantized_shards) ← keys.foldlM (vector_pass store spec) (0, [])
  refuse_if (vector_quantized_shards = [] ∨ logical_begin ≠ rows)
    (message "vector-quantized PLE total row count mismatch")
  .ok { rows, vector_quantized_shards }

/-- What the values of eight columns are computed from. -/
structure VectorCell where
  code : Nat
  scale : Nat
  vector : List Nat

def codes_per_row : Nat := dimension / 8

def scales_per_row : Nat := dimension / 32

/-- Where a code is read. -/
def code_offset (row code_index : Nat) : Nat := size_t (row * codes_per_row) + code_index

/-- Where the scale of a code is read. -/
def scale_offset (row code_index : Nat) : Nat :=
  size_t (row * scales_per_row * 2) + code_index / 4 * 2

/-- Where an element of the vector of a code is read. -/
def element_offset (code element : Nat) : Nat := code * 8 * 2 + element * 2

/-- One code of a row. -/
def decode_vector (shard : VectorQuantizedShard) (row code_index : Nat) : Load VectorCell := do
  let code ← slice shard.codes.bytes (code_offset row code_index) 1
  let scale ← slice shard.scales.bytes (scale_offset row code_index) 2
  let vector ← (List.range 8).mapM fun element => do
    let value ← slice shard.codebook.bytes (element_offset (LittleEndian.value code) element) 2
    .ok (LittleEndian.value value)
  .ok { code := LittleEndian.value code, scale := LittleEndian.value scale, vector }

/-- `decode_vector_quantized_row`. -/
def decode_vector_quantized_row (shard : VectorQuantizedShard) (logical_row : Nat) :
    Load (List VectorCell) := do
  refuse_if (logical_row < shard.logical_begin ∨ shard.logical_end ≤ logical_row)
    (message "invalid vector-quantized PLE row")
  (List.range codes_per_row).mapM (decode_vector shard (logical_row - shard.logical_begin))

/-- The search for the shard of a row. -/
def find_vector_quantized (table : NgramTable) (logical_row : Nat) : Option VectorQuantizedShard :=
  table.vector_quantized_shards.find? fun candidate => logical_row < candidate.logical_end

/-- `gather`, for one vector-quantised row. -/
def gather_vector_quantized (table : NgramTable) (row_id : Int) : Load (List VectorCell) := do
  refuse_if (row_id < 0 ∨ table.rows ≤ row_id) (message "n-gram row index is out of range")
  match table.find_vector_quantized row_id.toNat with
  | none => .error (.thrown (message "vector-quantized PLE shard lookup failed"))
  | some shard => do
    refuse_if (row_id.toNat < shard.logical_begin)
      (message "vector-quantized PLE shard lookup failed")
    decode_vector_quantized_row shard row_id.toNat

end NgramTable

end Qwen38
